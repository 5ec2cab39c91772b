/-
**The accounts of every open root are balanced.**

* `balanced_open` — opening leaves the accounts balanced, whatever the disk held.
* `balanced_reached` — so they are after every operation.
* `Reached.rule` — what every open leaves and every change keeps holds in every reachable state.
-/

import Camus.Storage.AccountingOpen

namespace Camus

open Codec Checked Disk FaultIo Result Std

variable {streamId : StreamId} {streams : StreamMap}

theorem foldl_addReclaimable_bytes {segments : List Segment} {total : Nat × Nat}
    (bounded : total.2 + (segments.map Segment.reclaimableLen).sum ≤ wordMax) :
    (segments.foldl addReclaimable total).2 =
      total.2 + (segments.map Segment.reclaimableLen).sum := by
  induction segments generalizing total with
  | nil => rfl
  | cons segment rest ih =>
    rw [List.map_cons, List.sum_cons] at bounded ⊢
    have one : (addReclaimable total segment).2 = total.2 + segment.reclaimableLen := by
      unfold addReclaimable Segment.reclaimableLen at *
      split at bounded
      · rw [if_pos ‹_›, if_pos ‹_›]
        exact min_eq_left (by omega)
      · rw [if_neg ‹_›, if_neg ‹_›]
        rfl
    rw [List.foldl_cons, ih (by rw [one]; omega), one, Nat.add_assoc]

/-- The rebuilt streams end in the last segment that holds one of their records, or later. -/
theorem rebuildIndexes_lasting {scanned segments : SegmentMap}
    {highwaters : Highwaters} {control : Control}
    (rebuilt : rebuildIndexes scanned highwaters control = .ok (segments, streams))
    {segmentId : Nat} {segment : Segment} (found : segments[segmentId]? = some segment)
    (held : streamId ∈ segment.streamIds) :
    ∃ later, (streams.entry streamId).lastSegmentId = some later ∧ segmentId ≤ later := by
  obtain ⟨replay, indexed, ⟨applied, -, isReplay, isReleased⟩, isIndexed, isFinal⟩ :=
    rebuildIndexes_eq_ok.mp rebuilt
  have sameSegments := (flagged_all isReleased).sameSegments
  obtain ⟨original, isOriginal, -⟩ := sameSegments.found found
  rw [sameSegments.streamIds found isOriginal] at held
  obtain ⟨record, isRecord, rfl⟩ := List.mem_map.mp held
  obtain ⟨ordinal, place⟩ := List.mem_iff_getElem?.mp isRecord
  rw [(applyDurableHighwaters_persists isFinal record.streamId).1,
    (indexSegments_entry isIndexed record.streamId).2.1]
  exact (replayed_all isReplay).lasting segmentId ordinal record trivial
    ⟨original, isOriginal, place⟩

section

variable [Hasher] {fs left : Fs} {world : World}

/-- **The accounts of an opened root are balanced**, whatever the disk held. -/
theorem balanced_open {config : Config} {entropy : RootId} {listing : Listing} {storage : Storage}
    (returned : Returns (Storage.open config entropy listing) fs storage left) :
    storage.bookView.Balanced := by
  have sound := sound_open returned
  obtain ⟨checkpoint, frames, file, scanned, control, base, opens⟩ := returns_open returned
  obtain ⟨config, rootId, recovery, stats, sameHighwaters, assembled⟩ := opens.assembled
  obtain ⟨validated, isActive⟩ := opens.active
  obtain ⟨-, -, segments, assembles⟩ := assembleStorage_eq_ok assembled
  have rebuilt := assembles.rebuilt
  rw [sameHighwaters] at rebuilt
  obtain ⟨same, -⟩ := indexes_rebuildIndexes rebuilt
  obtain ⟨standing, areRecorded, ends⟩ := standing_rebuildIndexes opens.recorded rebuilt
  have again := sameSegments_refreshSegments assembles.refreshed
  have areSegments : storage.segments = base.segments := by rw [opens.left]
  have areStreams : storage.streams = base.streams := by rw [opens.left]
  have isBytes : storage.reclaimableBytes =
      ((Maps.values base.segments).foldl addReclaimable (0, 0)).2 := by
    rw [assembles.reclaimable, opens.left]
  rw [← areSegments] at again isBytes
  rw [← areStreams] at standing areRecorded ends
  have identities : ∀ segmentId ∈ storage.segments, segmentId < storage.nextSegmentId :=
    sound.identities
  have isMeasured : ∀ (segmentId : Nat) (segment : Segment),
      storage.segments[segmentId]? = some segment → segment.Measured := by
    intro segmentId segment found
    obtain ⟨original, isOriginal, equal⟩ := (same.trans again).found found
    exact (opens.measured segmentId original isOriginal).1.of_bare equal
  have books := opens.books
  rw [← segmentSum_values _ identities] at books
  have reclaimed : ((Maps.values storage.segments).map Segment.reclaimableLen).sum =
      segmentSum Segment.reclaimableLen storage.segments storage.nextSegmentId :=
    (segmentSum_values _ identities).symm
  exact
    { books := books.symm
      bounded := opens.bounded
      persisted := fun ids distinct persists => opens.covers ids distinct fun streamId member =>
        areRecorded streamId (persists streamId member)
      known := fun streamId member => (standing.known streamId member).imp_right again.heldIn
      backed := standing.backed
      long := fun segmentId segment found => (isMeasured segmentId segment found).long
      last := fun streamId segmentId isLast => by
        obtain ⟨original, isOriginal, held⟩ := ends streamId segmentId isLast
        obtain ⟨segment, found, -⟩ := again.symm.found isOriginal
        refine ⟨identities segmentId (Maps.mem_iff_found.mpr ⟨_, found⟩), fun other isOther => ?_⟩
        rw [again.streamIds isOther isOriginal]
        exact held
      ends := fun activeId segment isActiveId found streamId held => by
        obtain ⟨original, isOriginal, -⟩ := again.found found
        rw [again.streamIds found isOriginal] at held
        obtain ⟨later, isLast, notBefore⟩ := rebuildIndexes_lasting rebuilt isOriginal held
        rw [← areStreams] at isLast
        obtain ⟨holder, isHolder, -⟩ := ends streamId later isLast
        have bound := (validateScannedSegments_eq_ok isActive).2 activeId isActiveId later
          ((same.mem_iff later).mp (Maps.mem_iff_found.mpr ⟨_, isHolder⟩))
        rw [← Nat.le_antisymm bound notBefore]
        exact isLast
      unique := fun segmentId segment found => (isMeasured segmentId segment found).unique
      reclaimable := by
        show storage.reclaimableBytes = segmentSum Segment.reclaimableLen storage.segments
          storage.nextSegmentId
        have below := segmentSum_mono Segment.reclaimableLen_le storage.segments storage.nextSegmentId
        have bounded := opens.bounded
        rw [isBytes, foldl_addReclaimable_bytes, reclaimed, Nat.zero_add]
        rw [reclaimed]
        show 0 + _ ≤ _
        omega }

/-- **The accounts of an open root stay balanced.** -/
theorem balanced_reached {world : World} (reached : Reached world) :
    world.storage.bookView.Balanced := by
  induction reached with
  | opened returned => exact balanced_open returned
  | operated before returned balanced =>
    have sound := sound_reached before
    exact Chain.rule (fun sound balanced _ moves => balanced_moves sound balanced moves) sound balanced
      balanced (moves_operation sound returned)

/-- **What every open leaves and every change keeps holds in every reachable state.** -/
theorem Reached.rule {holds : World → Prop}
    (opens : ∀ {config : Config} {entropy : RootId} {listing : Listing} {storage : Storage}
      {fs left : Fs}, Returns (Storage.open config entropy listing) fs storage left →
        holds ⟨storage, left⟩)
    (moves : ∀ {world final : World}, world.storage.indexView.Sound →
      world.storage.bookView.Balanced → holds world → Moves world final → holds final)
    (reached : Reached world) : holds world := by
  induction reached with
  | opened returned => exact opens returned
  | operated before returned held =>
    exact Chain.rule moves (sound_reached before) (balanced_reached before) held
      (moves_operation (sound_reached before) returned)

end

end Camus
