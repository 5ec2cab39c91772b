/-
**The operations keep the index.**

Every part of an operation of an open root that returns keeps the invariant of `Camus.Storage.Index`.

* `Indexes.indexDurableRecords` — indexing the records a group has added to a segment.
* `sound_sealSegment`, `sound_writeGroup`, `sound_markRecordReleased`, `sound_reclaimBatch`,
  `sound_compactManifest` — one theorem per part.
-/

import Camus.Storage.Effects
import Camus.Storage.Index

namespace Camus

open Codec Checked Disk FaultIo Result Std

variable {creation : Clock} {eligible : List Nat} {segmentId start : Nat} {report : ReclaimReport}
  {segments : SegmentMap} {storage next : Storage} {value : Unit}

/-! ### Indexing new records -/

/-- The places that were there before a segment got records from an ordinal on. -/
def Before (segmentId start otherId ordinal : Nat) : Prop :=
  ¬ (otherId = segmentId ∧ start ≤ ordinal)

/-- The streams some records belong to can still count. -/
def Roomy (records : List StoredRecord) (streams : StreamMap) : Prop :=
  ∀ record ∈ records, ∀ highwater, (streams.entry record.streamId).highwater = some highwater →
    highwater ≤ wordMax

theorem indexDurableRecord_eq_ok {ordinal : Nat} {path : Artifact} {record : StoredRecord}
    (indexed : indexDurableRecord segmentId path storage (record, ordinal) = .ok next) :
    (∀ highwater, (storage.stream record.streamId).highwater = some highwater →
      highwater ≠ wordMax ∧ record.sequence = saturatingAdd highwater 1) ∧
    record.sequence ≤ wordMax ∧
    ∃ state : StreamState, state.highwater = some record.sequence ∧
      state.pending = (storage.stream record.streamId).pending.insert record.sequence
        ⟨segmentId, ordinal⟩ ∧
      next.streams = storage.streams.insert record.streamId state ∧
      next.segments = storage.segments ∧ next.activeSegment = storage.activeSegment ∧
      next.nextSegmentId = storage.nextSegmentId ∧
      next.reclaimableSegments = storage.reclaimableSegments := by
  obtain ⟨⟨notMax, isNext⟩, -, -, rfl⟩ := indexDurableRecord_iff.mp indexed
  refine ⟨fun highwater isHighwater => ⟨fun same => ?_, ?_⟩, ?_, _, rfl, rfl, rfl, rfl, rfl, rfl, rfl⟩
  · exact notMax (by rw [isHighwater, same])
  · rw [isNext, isHighwater]
    rfl
  · rw [isNext]
    cases (storage.stream record.streamId).highwater with
    | none => exact Nat.zero_le _
    | some highwater => exact Nat.min_le_right _ _

/-- **Indexing the new records of a segment.** Each of them is new to its stream, so what the
indexing of a new record keeps holds at the end. -/
theorem Indexes.indexDurableRecords_rule {holds : Storage → Prop} {segmentId start : Nat}
    {storage next : Storage} {segment : Segment}
    (indexed : storage.indexDurableRecords segmentId start = .ok next)
    (found : storage.segments[segmentId]? = some segment)
    (indexes : Indexes storage.segments storage.streams (Before segmentId start))
    (unreleased : ∀ record ∈ segment.records.drop start, record.released = false)
    (roomy : Roomy (segment.records.drop start) storage.streams) (begins : holds storage)
    (step : ∀ {total following : Storage} {record : StoredRecord} {ordinal : Nat},
      Placed total.segments segmentId ordinal record →
      (StreamMap.entry total.streams record.streamId).pending[record.sequence]? = none →
      indexDurableRecord segmentId segment.path total (record, ordinal) = .ok following →
      holds total → holds following) :
    holds next ∧ Indexes storage.segments next.streams (fun _ _ => True) ∧
      next.segments = storage.segments ∧ next.activeSegment = storage.activeSegment ∧
      next.nextSegmentId = storage.nextSegmentId ∧
      next.reclaimableSegments = storage.reclaimableSegments := by
  simp only [Storage.indexDurableRecords, bind_eq_ok, Storage.segmentAt,
    orError_eq_ok] at indexed
  obtain ⟨_, isSegment, folded⟩ := indexed
  cases found.symm.trans isSegment
  have entryAt : ∀ {record : StoredRecord} {ordinal : Nat},
      (record, ordinal) ∈ segment.records.zipIdx.drop start →
        segment.records[ordinal]? = some record ∧ start ≤ ordinal := by
    intro record ordinal member
    obtain ⟨index, isIndex⟩ := List.getElem?_of_mem member
    rw [List.getElem?_drop, List.getElem?_zipIdx] at isIndex
    obtain ⟨_, isRecord, same⟩ := Option.map_eq_some_iff.mp isIndex
    obtain ⟨rfl, rfl⟩ := Prod.mk.inj same
    exact ⟨by simpa using isRecord, by omega⟩
  have inTail : ∀ {record : StoredRecord} {ordinal : Nat},
      (record, ordinal) ∈ segment.records.zipIdx.drop start → record ∈ segment.records.drop start := by
    intro record ordinal member
    obtain ⟨isRecord, beyond⟩ := entryAt member
    refine List.mem_of_getElem? (i := ordinal - start) ?_
    rw [List.getElem?_drop, Nat.add_sub_cancel' beyond]
    exact isRecord
  -- after some records: the places before, and those of these records
  have all := tryFold_induction_done
    (fun processed (total : Storage) => holds total ∧
      Indexes storage.segments total.streams (fun otherId ordinal =>
        Before segmentId start otherId ordinal ∨
          otherId = segmentId ∧ ∃ entry ∈ processed, entry.2 = ordinal) ∧
      Roomy (segment.records.drop start) total.streams ∧
      total.segments = storage.segments ∧ total.activeSegment = storage.activeSegment ∧
      total.nextSegmentId = storage.nextSegmentId ∧
      total.reclaimableSegments = storage.reclaimableSegments)
    ⟨begins, by simpa using indexes, roomy, rfl, rfl, rfl, rfl⟩ ?_ folded
  · obtain ⟨held, final, -, segments, active, identity, reclaimable⟩ := all
    refine ⟨held, final.onSegments (fun otherId ordinal record _ placed => ⟨?_, placed⟩)
      (fun _ _ _ _ placed _ => ⟨trivial, placed⟩), segments, active, identity, reclaimable⟩
    by_cases old : Before segmentId start otherId ordinal
    · exact .inl old
    · unfold Before at old
      rw [not_not] at old
      obtain ⟨rfl, beyond⟩ := old
      obtain ⟨_, lookup, isRecord⟩ := placed
      cases found.symm.trans lookup
      refine .inr ⟨rfl, (record, ordinal), ?_, rfl⟩
      refine List.mem_of_getElem? (i := ordinal - start) ?_
      rw [List.getElem?_drop, Nat.add_sub_cancel' beyond, List.getElem?_zipIdx, isRecord]
      simp
  · rintro processed ⟨record, ordinal⟩ rest total following whole
      ⟨held, before, room, segments, active, identity, reclaimable⟩ stepped
    have member : (record, ordinal) ∈ segment.records.zipIdx.drop start := by
      rw [whole]
      simp
    obtain ⟨isRecord, beyond⟩ := entryAt member
    obtain ⟨continues, bounded, state, highwater, pending, isStreams, isSegments, isActive, isIdentity,
      isReclaimable⟩ := indexDurableRecord_eq_ok stepped
    have fresh : ∀ value, (StreamMap.entry total.streams record.streamId).highwater = some value →
        value < record.sequence := by
      intro value isValue
      obtain ⟨notMax, isNext⟩ := continues value isValue
      have bound := room record (inTail member) value isValue
      rw [isNext]
      exact lt_min (Nat.lt_succ_self _) (Nat.lt_of_le_of_ne bound notMax)
    have added := before.add ⟨segment, found, isRecord⟩ fresh highwater pending
      (unreleased record (inTail member))
    have new : (StreamMap.entry total.streams record.streamId).pending[record.sequence]? = none := by
      cases isPending : (StreamMap.entry total.streams record.streamId).pending[record.sequence]? with
      | none => rfl
      | some pointer =>
        obtain ⟨isDone, other, placed, sameStream, sameSequence, -⟩ := before.place _ _ _ isPending
        obtain ⟨value, isValue, bound⟩ := before.below _ _ _ isDone placed
        rw [sameStream] at isValue
        have above := fresh value isValue
        omega
    have nextHeld := step (by rw [segments]; exact ⟨segment, found, isRecord⟩) new stepped held
    refine ⟨nextHeld, ?_, ?_, isSegments.trans segments, isActive.trans active, isIdentity.trans identity,
      isReclaimable.trans reclaimable⟩
    · rw [isStreams]
      refine added.onSegments (fun otherId otherOrdinal other isLater placed => ⟨?_, placed⟩)
        (fun otherId otherOrdinal other isDone placed _ => ⟨?_, placed⟩)
      · rcases isLater with old | ⟨rfl, entry, isEntry, rfl⟩
        · exact .inl (.inl old)
        · rcases List.mem_append.mp isEntry with earlier | last
          · exact .inl (.inr ⟨rfl, entry, earlier, rfl⟩)
          · obtain rfl := List.mem_singleton.mp last
            exact .inr ⟨rfl, rfl⟩
      · rcases isDone with (old | ⟨rfl, entry, isEntry, rfl⟩) | ⟨rfl, rfl⟩
        · exact .inl old
        · exact .inr ⟨rfl, entry, List.mem_append_left _ isEntry, rfl⟩
        · exact .inr ⟨rfl, _, List.mem_append_right _ (List.mem_singleton_self _), rfl⟩
    · intro other isOther value isValue
      rw [isStreams, StreamMap.entry_insert] at isValue
      split at isValue
      · rw [highwater] at isValue
        cases isValue
        exact bounded
      · exact room other isOther value isValue

theorem Indexes.indexDurableRecords {segment : Segment}
    (indexed : storage.indexDurableRecords segmentId start = .ok next)
    (found : storage.segments[segmentId]? = some segment)
    (indexes : Indexes storage.segments storage.streams (Before segmentId start))
    (unreleased : ∀ record ∈ segment.records.drop start, record.released = false)
    (roomy : Roomy (segment.records.drop start) storage.streams) :
    Indexes storage.segments next.streams (fun _ _ => True) ∧
      next.segments = storage.segments ∧ next.activeSegment = storage.activeSegment ∧
      next.nextSegmentId = storage.nextSegmentId ∧
      next.reclaimableSegments = storage.reclaimableSegments :=
  (@Indexes.indexDurableRecords_rule (fun _ => True) _ _ _ _ _ indexed found indexes unreleased roomy
    trivial fun _ _ _ _ => trivial).2

/-! ### Sealing and appending -/

/-- A view with one more place at the end of a segment, or with a new segment. -/
theorem Indexes.extend {segments : SegmentMap} {streams : StreamMap}
    (indexes : Indexes segments streams fun _ _ => True) {segmentId : Nat} {next : Segment}
    {old added : List StoredRecord}
    (was : ∀ segment, segments[segmentId]? = some segment → segment.records = old)
    (fresh : segments[segmentId]? = none → old = []) (extended : next.records = old ++ added) :
    Indexes (segments.insert segmentId next) streams (Before segmentId old.length) := by
  refine indexes.onSegments ?_ ?_
  · rintro otherId ordinal record isBefore ⟨other, isOther, isRecord⟩
    refine ⟨trivial, ?_⟩
    obtain ⟨rfl, rfl⟩ | ⟨-, isOther⟩ := Maps.getElem?_insert_eq_some.mp isOther
    · have inside : ordinal < old.length := by
        by_contra beyond
        exact isBefore ⟨rfl, Nat.le_of_not_lt beyond⟩
      rw [extended, List.getElem?_append_left inside] at isRecord
      cases found : segments[segmentId]? with
      | none =>
        rw [fresh found] at inside
        cases inside
      | some segment => exact ⟨segment, found, by rw [was segment found]; exact isRecord⟩
    · exact ⟨other, isOther, isRecord⟩
  · rintro otherId ordinal record - ⟨other, isOther, isRecord⟩ _
    rw [Before]
    by_cases same : segmentId = otherId
    · subst same
      have shape := was other isOther
      rw [shape] at isRecord
      have inside := (List.getElem?_eq_some_iff.mp isRecord).1
      refine ⟨by omega, next, ExtTreeMap.getElem?_insert_self, ?_⟩
      rw [extended, List.getElem?_append_left inside]
      exact isRecord
    · exact ⟨fun both => same both.1.symm, other,
        (Maps.getElem?_insert_of_ne same).trans isOther, isRecord⟩

/-- A segment that is not reclaimable leaves room for one more that is. -/
theorem IndexView.Sound.reclaimable_lt {view : IndexView} (sound : view.Sound) {segment : Segment}
    (found : view.segments[segmentId]? = some segment) (notYet : segment.isReclaimable = false)
    {next : Segment} (eligible : next.isReclaimable = true) :
    saturatingAdd view.reclaimableSegments 1 = view.reclaimableSegments + 1 := by
  have updated := @reclaimableCount_insert view.segments view.nextSegmentId segmentId
    (sound.identity_of_found found) segment next found
  have bound := reclaimableCount_le (view.segments.insert segmentId next) view.nextSegmentId
  have last := sound.last
  have counted := sound.reclaimable
  rw [notYet, eligible] at updated
  simp only [Bool.toNat_false, Bool.toNat_true] at updated
  exact min_eq_left (by omega)

section

variable [Hasher] {world final : World}

theorem sound_sealSegment {reason : SealReason} (sound : world.storage.indexView.Sound)
    (active : world.storage.activeSegment = some segmentId)
    (returned : Returns (sealSegment segmentId reason) world value final) :
    final.storage.indexView.Sound := by
  obtain ⟨segment, sealed, footer, manifest, bytes, first, last, found, seals, -, -, -, rfl⟩ :=
    returns_sealSegment returned
  obtain ⟨shape, -⟩ := returns_sealData seals
  obtain ⟨other, isOther, noFooter⟩ := sound.isOpen segmentId active
  have isOther : world.storage.segments[segmentId]? = some other := isOther
  cases found.symm.trans isOther
  have records : sealed.records = segment.records := by rw [shape]
  have unreleased : sealed.unreleasedRecords = segment.unreleasedRecords := by rw [shape]
  have footed : sealed.footer.isSome = true := by rw [shape]; rfl
  have notYet : segment.isReclaimable = false := by simp [Segment.isReclaimable, noFooter]
  have indexes : Indexes (world.storage.segments.insert segmentId sealed) world.storage.streams
      fun _ _ => True := by
    refine sound.indexes.onSegments ?_ ?_
    all_goals rintro otherId ordinal record - ⟨other, isOther, isRecord⟩
    · obtain ⟨rfl, rfl⟩ | ⟨-, isOther⟩ := Maps.getElem?_insert_eq_some.mp isOther
      · exact ⟨trivial, segment, found, by rw [← records]; exact isRecord⟩
      · exact ⟨trivial, other, isOther, isRecord⟩
    · intro _
      refine ⟨trivial, ?_⟩
      by_cases same : segmentId = otherId
      · subst same
        have isOther : world.storage.segments[segmentId]? = some other := isOther
        cases found.symm.trans isOther
        exact ⟨sealed, ExtTreeMap.getElem?_insert_self, by rw [records]; exact isRecord⟩
      · exact ⟨other, (Maps.getElem?_insert_of_ne same).trans isOther, isRecord⟩
  have counted : sealed.unreleasedRecords = sealed.unreleasedCount := by
    rw [unreleased, Segment.unreleasedCount, records]
    exact sound.counted segmentId segment found
  refine sound.replace found indexes counted ?_ (fun _ => footed) ?_
  · show none = _
    have isActive : world.storage.indexView.activeSegment = some segmentId := active
    rw [footed, isActive]
    simp
  · show (if sealed.unreleasedRecords = 0 then saturatingAdd world.storage.reclaimableSegments 1
        else world.storage.reclaimableSegments) + _ = world.storage.reclaimableSegments + _
    rw [notYet, Bool.toNat_false, Nat.add_zero]
    split
    · rename_i drained
      have eligible : sealed.isReclaimable = true := by simp [Segment.isReclaimable, footed, drained]
      rw [eligible, Bool.toNat_true]
      exact sound.reclaimable_lt found notYet eligible
    · rename_i pending
      simp [Segment.isReclaimable, pending]

theorem sound_seals (sound : world.storage.indexView.Sound) (seals : Seals world final) :
    final.storage.indexView.Sound := by
  rcases seals with rfl | ⟨segmentId, reason, active, returned⟩
  · exact sound
  · exact sound_sealSegment sound active returned

/-- Sealing leaves the streams alone. -/
theorem Seals.streams (seals : Seals world final) :
    final.storage.streams = world.storage.streams := by
  rcases seals with rfl | ⟨segmentId, reason, -, seals⟩
  · rfl
  · obtain ⟨_, _, _, _, _, _, _, -, -, -, -, -, rfl⟩ := returns_sealSegment seals
    rfl

theorem unreleasedCount_append {segment next : Segment} {epochs : List Epoch}
    (extended : next.records = segment.records ++ storedEpochs start epochs) :
    next.unreleasedCount = segment.unreleasedCount + (epochRecords epochs).length := by
  rw [Segment.unreleasedCount, extended, List.countP_append, countP_storedEpochs]
  rfl

/-- The records of epochs belong to streams that have room. -/
theorem roomy_storedEpochs {epochs : List Epoch} {streams : StreamMap}
    (room : ∀ epoch ∈ epochs, ∀ highwater,
      (streams.entry epoch.streamId).highwater = some highwater → highwater < wordMax) :
    Roomy (storedEpochs start epochs) streams := by
  intro record member highwater isHighwater
  obtain ⟨epoch, isEpoch, sameStream, -⟩ := SegmentImage.mem_storedEpochs member
  rw [sameStream] at isHighwater
  exact (room epoch isEpoch highwater isHighwater).le

/-- The records of a segment from an ordinal on can be indexed: they are new and unreleased. -/
structure Indexable (storage : Storage) (segmentId start : Nat) (segment : Segment) : Prop where
  found : storage.segments[segmentId]? = some segment
  indexes : Indexes storage.segments storage.streams (Before segmentId start)
  unreleased : ∀ record ∈ segment.records.drop start, record.released = false
  roomy : Roomy (segment.records.drop start) storage.streams

section

variable {epochs : List Epoch} {ids : List (List RecordId)} {segment appended : Segment}
  {indexed : Storage} {active : Nat}

theorem Extended.indexable (extended : Extended world final active (epochs.map Epoch.prepared) segment
    appended ids indexed) (sound : world.storage.indexView.Sound)
    (valid : ∀ epoch ∈ epochs, epoch.Valid)
    (room : ∀ epoch ∈ epochs, ∀ highwater,
      world.storage.streamHighwater epoch.streamId = some highwater → highwater < wordMax) :
    Indexable { world.storage with segments := world.storage.segments.insert active appended } active
      segment.records.length appended := by
  obtain ⟨-, shape, -⟩ := returns_segmentAppend valid extended.appends
  have records : appended.records = segment.records ++ storedEpochs segment.fileLen epochs := by
    rw [shape]
  have tail : appended.records.drop segment.records.length = storedEpochs segment.fileLen epochs := by
    rw [records, List.drop_left]
  have isFound : world.storage.segments[active]? = some segment := extended.found
  refine ⟨ExtTreeMap.getElem?_insert_self, ?_, ?_, ?_⟩
  · exact sound.indexes.extend (fun other isOther => by cases isFound.symm.trans isOther; rfl)
      (fun none => by cases isFound.symm.trans none) records
  · rw [tail]
    exact fun _ => storedEpochs_unreleased
  · rw [tail]
    exact roomy_storedEpochs room

theorem Created.indexable (created : Created world final (epochs.map Epoch.prepared) segment ids indexed)
    (sound : world.storage.indexView.Sound) (valid : ∀ epoch ∈ epochs, epoch.Valid)
    (room : ∀ epoch ∈ epochs, ∀ highwater,
      world.storage.streamHighwater epoch.streamId = some highwater → highwater < wordMax) :
    Indexable { world.storage with
      nextSegmentId := saturatingAdd world.storage.nextSegmentId 1
      segments := world.storage.segments.insert world.storage.nextSegmentId segment
      activeSegment := some world.storage.nextSegmentId } world.storage.nextSegmentId 0 segment := by
  obtain ⟨createdAt, creates⟩ := created.creates
  obtain ⟨⟨-, -, records, -⟩, -⟩ := returns_segmentCreate valid creates
  have absent : world.storage.segments[world.storage.nextSegmentId]? = none := by
    cases found : world.storage.segments[world.storage.nextSegmentId]? with
    | none => rfl
    | some other => exact absurd (sound.identity_of_found found) (Nat.lt_irrefl _)
  refine ⟨ExtTreeMap.getElem?_insert_self, ?_, ?_, ?_⟩
  · exact @Indexes.extend _ _ sound.indexes _ segment [] _
      (fun other isOther => by cases absent.symm.trans isOther) (fun _ => rfl) records
  · rw [List.drop_zero, records]
    exact fun _ => storedEpochs_unreleased
  · rw [List.drop_zero, records]
    exact roomy_storedEpochs room

end

theorem sound_writeGroup {epochs : List Epoch} {ids : List (List RecordId)}
    (sound : world.storage.indexView.Sound) (valid : ∀ epoch ∈ epochs, epoch.Valid)
    (room : ∀ epoch ∈ epochs, ∀ highwater,
      world.storage.streamHighwater epoch.streamId = some highwater → highwater < wordMax)
    (returned : Returns (writeGroup (epochs.map Epoch.prepared) creation) world ids final) :
    final.storage.indexView.Sound := by
  rcases returns_writeGroup returned with ⟨active, segment, appended, indexed, isActive, extended⟩ |
    ⟨segment, indexed, noActive, created⟩
  · obtain ⟨noFooter, shape, -⟩ := returns_segmentAppend valid extended.appends
    have records : appended.records = segment.records ++ storedEpochs segment.fileLen epochs := by
      rw [shape]
    have footless : appended.footer = none := by rw [shape]; exact noFooter
    have isFound : world.storage.segments[active]? = some segment := extended.found
    have indexable := extended.indexable sound valid room
    obtain ⟨indexes, segments, activeSame, identity, reclaimable⟩ :=
      Indexes.indexDurableRecords extended.indexes indexable.found indexable.indexes
        indexable.unreleased indexable.roomy
    have counted : appended.unreleasedRecords = appended.unreleasedCount := by
      rw [unreleasedCount_append records, ← sound.counted active segment isFound, shape]
    have view : final.storage.indexView = ⟨world.storage.segments.insert active appended,
        indexed.streams, world.storage.activeSegment, world.storage.nextSegmentId,
        world.storage.reclaimableSegments⟩ := by
      rw [extended.left]
      simp only [Storage.indexView]
      rw [segments, activeSame, identity, reclaimable]
    rw [view]
    refine sound.replace isFound indexes counted ?_ ?_ ?_
    · rw [footless]
      rfl
    · intro isSealed
      rw [noFooter] at isSealed
      cases isSealed
    · simp only [Segment.isReclaimable, noFooter, footless]
      rfl
  · obtain ⟨createdAt, creates⟩ := created.creates
    obtain ⟨⟨noFooter, -, records, unreleased, -⟩, -⟩ := returns_segmentCreate valid creates
    have indexable := created.indexable sound valid room
    obtain ⟨indexes, segments, activeSame, identity, reclaimable⟩ :=
      Indexes.indexDurableRecords created.indexes indexable.found indexable.indexes
        indexable.unreleased indexable.roomy
    have counted : segment.unreleasedRecords = segment.unreleasedCount := by
      rw [unreleased, Segment.unreleasedCount, records, countP_storedEpochs, storedEpochs_length]
    have newView := sound.create noActive created.room indexes counted noFooter
    have bound : world.storage.nextSegmentId ≤ wordMax := sound.last
    have advanced : saturatingAdd world.storage.nextSegmentId 1 = world.storage.nextSegmentId + 1 :=
      min_eq_left (Nat.lt_of_le_of_ne bound created.room)
    have view : final.storage.indexView =
        ⟨world.storage.segments.insert world.storage.nextSegmentId segment, indexed.streams,
          some world.storage.nextSegmentId, world.storage.nextSegmentId + 1,
          world.storage.reclaimableSegments⟩ := by
      rw [created.left]
      simp only [Storage.indexView]
      rw [segments, activeSame, identity, reclaimable, advanced]
    rw [view]
    exact newView

end

/-! ### Releasing -/

/-- A change of one item that takes it out of a count. -/
theorem countP_modify {α : Type} {counts : α → Bool} {change : α → α} {items : List α} {index : Nat}
    {item : α} (found : items[index]? = some item) (was : counts item = true)
    (gone : counts (change item) = false) :
    (items.modify index change).countP counts + 1 = items.countP counts := by
  induction items generalizing index with
  | nil => cases found
  | cons first rest ih =>
    cases index with
    | zero =>
      cases found
      simp [was, gone]
    | succ index =>
      have later := ih found
      rw [List.modify_succ_cons, List.countP_cons, List.countP_cons]
      omega

theorem sound_markRecordReleased {identity : Identity} (sound : storage.indexView.Sound)
    (marked : storage.markRecordReleased identity = .ok next) : next.indexView.Sound := by
  obtain ⟨-, rfl⟩ | ⟨state, place, segment, record, isMarked⟩ := markRecordReleased_eq_ok.mp marked
  · exact sound
  · have entry := isMarked.entry
    have found := isMarked.found
    have counts := isMarked.counts
    rw [isMarked.left]
    generalize isCount : segment.unreleasedRecords - 1 = unreleased
    have pendingAt : (StreamMap.entry storage.streams identity.1).pending[identity.2]? =
        some place := by
      rw [entry]
      exact isMarked.isPending
    obtain ⟨-, target, ⟨holder, isHolder, isTarget⟩, -, -, targetPending⟩ :=
      sound.indexes.place _ _ _ pendingAt
    have isHolder : storage.segments[place.segmentId]? = some holder := isHolder
    cases found.symm.trans isHolder
    have counted : unreleased =
        (segment.releaseRecord place.ordinal unreleased).unreleasedCount := by
      have fewer := @countP_modify _ (fun record : StoredRecord => !record.released)
        (fun record => { record with released := true }) segment.records place.ordinal target isTarget
        (by simp [targetPending]) rfl
      have before := sound.counted place.segmentId segment found
      rw [Segment.unreleasedCount] at before
      show unreleased = (segment.records.modify place.ordinal _).countP _
      omega
    have notYet : segment.isReclaimable = false := by
      have some : segment.unreleasedRecords ≠ 0 := by omega
      simp [Segment.isReclaimable, some]
    have becomes : (segment.releaseRecord place.ordinal unreleased).isReclaimable =
        (segment.footer.isSome && segment.unreleasedRecords = 1) := by
      have same : unreleased = 0 ↔ segment.unreleasedRecords = 1 := by omega
      simp [Segment.isReclaimable, Segment.releaseRecord, same]
    have indexes : Indexes (storage.segments.insert place.segmentId
        (segment.releaseRecord place.ordinal unreleased)) (storage.streams.insert identity.1
          { state with
            pending := state.pending.erase identity.2
            pendingPayloadBytes := state.pendingPayloadBytes - record.payloadLen }) fun _ _ => True :=
      sound.indexes.release pendingAt found rfl
        (show state.highwater = (StreamMap.entry storage.streams identity.1).highwater by rw [entry])
        (show state.pending.erase identity.2 =
          (StreamMap.entry storage.streams identity.1).pending.erase identity.2 by rw [entry])
    refine sound.replace found indexes counted ?_ id ?_
    · show storage.activeSegment = if _ then _ else storage.activeSegment
      rw [if_neg]
      simp only [Bool.and_eq_true, decide_eq_true_eq, not_and]
      intro footed isActive
      obtain ⟨other, isOther, noFooter⟩ := sound.isOpen place.segmentId isActive
      have isOther : storage.segments[place.segmentId]? = some other := isOther
      cases found.symm.trans isOther
      have footed : segment.footer.isSome = true := footed
      rw [noFooter] at footed
      cases footed
    · rw [becomes, notYet, Bool.toNat_false, Nat.add_zero]
      show (if _ then _ else _) = storage.reclaimableSegments + _
      split
      · rename_i becameReclaimable
        rw [becameReclaimable, Bool.toNat_true]
        exact sound.reclaimable_lt found notYet (becomes.trans becameReclaimable)
      · rename_i stays
        rw [Bool.not_eq_true] at stays
        rw [stays]
        rfl

theorem entry_persisted (streams : StreamMap) (streamId : StreamId) :
    StreamMap.entry (streams.map fun _ (stream : StreamState) =>
      { stream with persistedHighwater := stream.highwater }) streamId =
        { streams.entry streamId with persistedHighwater := (streams.entry streamId).highwater } := by
  simp only [StreamMap.entry, ExtTreeMap.getElem?_map]
  cases streams[streamId]? <;> rfl

section

variable [Hasher] {world final : World}

theorem sound_compactManifest (sound : world.storage.indexView.Sound)
    (returned : Returns compactManifest world value final) : final.storage.indexView.Sound := by
  obtain ⟨manifest, fs, bytes, maintenance, -, -, rfl⟩ := returns_compactManifest returned
  refine sound.onStreams (fun streamId => ?_) fun streamId => ?_
  · rw [entry_persisted]
    rfl
  · rw [entry_persisted]
    rfl

end

/-! ### Reclaiming -/

/-- Segments that may be removed one after the other. -/
def Eligible (segments : SegmentMap) (eligible : List Nat) : Prop :=
  eligible.Nodup ∧ ∀ segmentId ∈ eligible,
    ∃ segment, segments[segmentId]? = some segment ∧ segment.isReclaimable = true

theorem eligibleSegments_eligible (storage : Storage) :
    Eligible storage.segments storage.eligibleSegments := by
  constructor
  · refine List.Nodup.sublist (List.Sublist.map _ List.filter_sublist) ?_
    rw [ExtTreeMap.map_fst_toList_eq_keys]
    exact ExtTreeMap.nodup_keys
  · intro segmentId member
    obtain ⟨⟨_, segment⟩, isEntry, rfl⟩ := List.mem_map.mp member
    obtain ⟨isEntry, eligible⟩ := List.mem_filter.mp isEntry
    exact ⟨segment, ExtTreeMap.mem_toList_iff_getElem?_eq_some.mp isEntry, eligible⟩

theorem Eligible.sublist {fewer : List Nat} (isEligible : Eligible segments eligible)
    (sublist : fewer.Sublist eligible) : Eligible segments fewer :=
  ⟨isEligible.1.sublist sublist, fun segmentId member =>
    isEligible.2 segmentId (sublist.subset member)⟩

/-- One of them goes. -/
theorem Eligible.drop {rest : List Nat} (isEligible : Eligible segments (segmentId :: rest)) :
    Eligible (segments.erase segmentId) rest := by
  obtain ⟨distinct, all⟩ := isEligible
  obtain ⟨notLater, restDistinct⟩ := List.nodup_cons.mp distinct
  refine ⟨restDistinct, fun otherId member => ?_⟩
  obtain ⟨kept, isKept, reclaimable⟩ := all otherId (List.mem_cons_of_mem _ member)
  have different : segmentId ≠ otherId := by
    rintro rfl
    exact notLater member
  exact ⟨kept, (Maps.getElem?_erase_of_ne different).trans isKept, reclaimable⟩

theorem limit_sublist (kind : ReclaimKind) (eligible : List Nat) :
    (kind.limit eligible).Sublist eligible := by
  cases kind with
  | automatic => exact List.take_sublist _ _
  | explicit => exact List.Sublist.refl _

theorem chunks_flatten_sublist {α : Type} (size fuel : Nat) (items : List α) :
    (chunks size fuel items).flatten.Sublist items := by
  induction fuel generalizing items with
  | zero => exact List.nil_sublist _
  | succ fuel ih =>
    cases items with
    | nil => exact List.nil_sublist _
    | cons item rest =>
      rw [chunks, List.flatten_cons]
      have split := (List.Sublist.refl ((item :: rest).take size)).append
        (ih ((item :: rest).drop size))
      · rwa [List.take_append_drop] at split
      · nofun

theorem persistHighwater_view {highwater : StreamHighwater} (sound : storage.indexView.Sound)
    (persisted : storage.persistHighwater highwater = .ok next) :
    next.indexView.Sound ∧ next.segments = storage.segments := by
  obtain ⟨stream, isStream, rfl⟩ := Storage.persistHighwater_eq_ok.mp persisted
  have entry : StreamMap.entry storage.streams highwater.streamId = stream := by
    rw [StreamMap.entry, isStream]
    rfl
  have inserted : ∀ streamId, StreamMap.entry (storage.streams.insert highwater.streamId
      { stream with persistedHighwater := some highwater.sequence }) streamId =
        { StreamMap.entry storage.streams streamId with
          persistedHighwater := if highwater.streamId = streamId then some highwater.sequence
            else (StreamMap.entry storage.streams streamId).persistedHighwater } := by
    intro streamId
    rw [StreamMap.entry_insert]
    split
    · rename_i same
      subst same
      rw [entry]
    · rfl
  refine ⟨sound.onStreams (fun streamId => ?_) (fun streamId => ?_), rfl⟩
  · exact (congrArg StreamState.highwater (inserted streamId)).trans rfl
  · exact (congrArg StreamState.pending (inserted streamId)).trans rfl

section

variable [Hasher] {world final : World}

theorem sound_removeSegments {eligible lengths remaining : List Nat}
    (sound : world.storage.indexView.Sound)
    (isEligible : Eligible world.storage.segments (eligible ++ remaining))
    (returned : Returns (removeSegments eligible) world lengths final) :
    final.storage.indexView.Sound ∧ Eligible final.storage.segments remaining := by
  induction eligible generalizing world lengths with
  | nil =>
    obtain ⟨-, rfl⟩ := Returns.result returned
    exact ⟨sound, isEligible⟩
  | cons segmentId rest ih =>
    obtain ⟨segment, dropped, fs, removed, found, drops, -, -, removes⟩ :=
      returns_removeSegments_cons returned
    obtain ⟨other, isOther, reclaimable⟩ := isEligible.2 segmentId List.mem_cons_self
    cases found.symm.trans isOther
    obtain ⟨_, count, reclaimableBytes, -, counts, -, rfl⟩ := Storage.dropSegment_eq_ok.mp drops
    have shrunk : ({ world.storage with
        segments := world.storage.segments.erase segmentId
        reclaimableSegments := count
        reclaimableBytes := reclaimableBytes } : Storage).indexView.Sound :=
      sound.drop found reclaimable counts.symm
    exact @ih ⟨_, fs⟩ _ shrunk (Eligible.drop isEligible) removes

theorem sound_reclaimBatch {eligible remaining : List Nat} {report : ReclaimReport}
    (sound : world.storage.indexView.Sound)
    (isEligible : Eligible world.storage.segments (eligible ++ remaining))
    (returned : Returns (reclaimBatch eligible) world report final) :
    final.storage.indexView.Sound ∧ Eligible final.storage.segments remaining := by
  rcases returns_reclaimBatch returned with ⟨rfl, -, rfl⟩ |
    ⟨bodies, manifest, fs, bytes, persisted, removed, maintenance, afterRemoval, -, -, -, folded,
      removes, -, -, -, left⟩
  · exact ⟨sound, isEligible⟩
  · obtain ⟨persistedSound, sameSegments⟩ := tryFold_induction
      (fun total : Storage => total.indexView.Sound ∧ total.segments = world.storage.segments)
      (by exact ⟨sound, rfl⟩)
      (fun _ _ _ _ before stepped => by
        obtain ⟨kept, same⟩ := persistHighwater_view before.1 stepped
        exact ⟨kept, same.trans before.2⟩) folded
    obtain ⟨removedSound, stillEligible⟩ := @sound_removeSegments _ ⟨persisted, fs⟩ _ _ _ remaining
      persistedSound (by rw [sameSegments]; exact isEligible) removes
    rw [left]
    exact ⟨removedSound, stillEligible⟩

end

end Camus
