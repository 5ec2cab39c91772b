/-
**The index of pending records.**

An open root keeps two views of its records: the segments with a flag per record, and for every
stream the places of its pending records. This module says how they agree and what keeps them so.

* `Indexes` — the streams index some of the places of the segments: no identity occurs twice, no
  sequence exceeds the high-water of its stream, and pending are exactly the unreleased records.
* `Indexes.add`, `Indexes.release`, `Indexes.onSegments` — one more record, a release, a change of
  the segments that keeps the unreleased records.
* `IndexView.Sound` — the invariant of an open root: all places are indexed, the counters are exact,
  and the one segment without a footer is the active one and the last.
-/

import Camus.Storage.Frame
import Camus.Storage.Rebuild

namespace Camus

open Codec Checked Disk FaultIo Std

variable {segmentId bound reclaimable : Nat} {state : StreamState}

/-! ### Places and the index -/

/-- **The streams index some places of the segments.** -/
structure Indexes (segments : SegmentMap) (streams : StreamMap) (done : Nat → Nat → Prop) : Prop where
  unique : ∀ segmentId ordinal record otherId otherOrdinal other,
    done segmentId ordinal → done otherId otherOrdinal →
    Placed segments segmentId ordinal record → Placed segments otherId otherOrdinal other →
    record.streamId = other.streamId → record.sequence = other.sequence →
      segmentId = otherId ∧ ordinal = otherOrdinal
  below : ∀ segmentId ordinal record, done segmentId ordinal →
    Placed segments segmentId ordinal record →
      ∃ highwater, (streams.entry record.streamId).highwater = some highwater ∧
        record.sequence ≤ highwater
  place : ∀ (streamId : StreamId) (sequence : Nat) (pointer : RecordPointer),
    (streams.entry streamId).pending[sequence]? = some pointer →
      done pointer.segmentId pointer.ordinal ∧
      ∃ record, Placed segments pointer.segmentId pointer.ordinal record ∧
        record.streamId = streamId ∧ record.sequence = sequence ∧ record.released = false
  pending : ∀ segmentId ordinal record, done segmentId ordinal →
    Placed segments segmentId ordinal record → record.released = false →
      (streams.entry record.streamId).pending[record.sequence]? = some ⟨segmentId, ordinal⟩

namespace Indexes

variable {segments after : SegmentMap} {streams next : StreamMap} {done later : Nat → Nat → Prop}

/-- Only high-waters and pending records matter. -/
theorem onStreams (indexes : Indexes segments streams done)
    (highwater : ∀ streamId, (next.entry streamId).highwater = (streams.entry streamId).highwater)
    (pending : ∀ streamId, (next.entry streamId).pending = (streams.entry streamId).pending) :
    Indexes segments next done where
  unique := indexes.unique
  below := by simpa only [highwater] using indexes.below
  place := by simpa only [pending] using indexes.place
  pending := by simpa only [pending] using indexes.pending

/-- A change of the segments that shows no other record and keeps the unreleased ones. -/
theorem onSegments (indexes : Indexes segments streams done)
    (old : ∀ segmentId ordinal record, later segmentId ordinal →
      Placed after segmentId ordinal record →
        done segmentId ordinal ∧ Placed segments segmentId ordinal record)
    (kept : ∀ segmentId ordinal record, done segmentId ordinal →
      Placed segments segmentId ordinal record → record.released = false →
        later segmentId ordinal ∧ Placed after segmentId ordinal record) :
    Indexes after streams later where
  unique := by
    intro segmentId ordinal record otherId otherOrdinal other isLater otherLater placed otherPlaced
    obtain ⟨isDone, wasPlaced⟩ := old _ _ _ isLater placed
    obtain ⟨otherDone, otherWas⟩ := old _ _ _ otherLater otherPlaced
    exact indexes.unique _ _ _ _ _ _ isDone otherDone wasPlaced otherWas
  below := by
    intro segmentId ordinal record isLater placed
    obtain ⟨isDone, wasPlaced⟩ := old _ _ _ isLater placed
    exact indexes.below _ _ _ isDone wasPlaced
  place := by
    intro streamId sequence pointer found
    obtain ⟨isDone, record, placed, isStream, isSequence, unreleased⟩ :=
      indexes.place streamId sequence pointer found
    obtain ⟨isLater, stays⟩ := kept _ _ _ isDone placed unreleased
    exact ⟨isLater, record, stays, isStream, isSequence, unreleased⟩
  pending := by
    intro segmentId ordinal record isLater placed unreleased
    obtain ⟨isDone, wasPlaced⟩ := old _ _ _ isLater placed
    exact indexes.pending _ _ _ isDone wasPlaced unreleased

/-- One more record is indexed: it continues its stream. -/
theorem add (indexes : Indexes segments streams done) {ordinal : Nat} {record : StoredRecord}
    (placed : Placed segments segmentId ordinal record)
    (fresh : ∀ highwater, (streams.entry record.streamId).highwater = some highwater →
      highwater < record.sequence) (highwater : state.highwater = some record.sequence)
    (pending : state.pending = (streams.entry record.streamId).pending.insert record.sequence
      ⟨segmentId, ordinal⟩) (unreleased : record.released = false) :
    Indexes segments (streams.insert record.streamId state)
      (fun otherId otherOrdinal => done otherId otherOrdinal ∨
        otherId = segmentId ∧ otherOrdinal = ordinal) := by
  -- an indexed record of the stream has a smaller sequence
  have smaller : ∀ otherId otherOrdinal other, done otherId otherOrdinal →
      Placed segments otherId otherOrdinal other → other.streamId = record.streamId →
        other.sequence < record.sequence := by
    intro otherId otherOrdinal other isDone otherPlaced sameStream
    obtain ⟨value, found, bound⟩ := indexes.below _ _ _ isDone otherPlaced
    rw [sameStream] at found
    exact Nat.lt_of_le_of_lt bound (fresh value found)
  refine ⟨?_, ?_, ?_, ?_⟩
  · rintro firstId firstOrdinal first otherId otherOrdinal other (isDone | ⟨rfl, rfl⟩)
      (otherDone | ⟨rfl, rfl⟩) firstPlaced otherPlaced sameStream sameSequence
    · exact indexes.unique _ _ _ _ _ _ isDone otherDone firstPlaced otherPlaced sameStream
        sameSequence
    · obtain rfl := otherPlaced.unique placed
      exact absurd sameSequence (Nat.ne_of_lt (smaller _ _ _ isDone firstPlaced sameStream))
    · obtain rfl := firstPlaced.unique placed
      exact absurd sameSequence.symm
        (Nat.ne_of_lt (smaller _ _ _ otherDone otherPlaced sameStream.symm))
    · exact ⟨rfl, rfl⟩
  · rintro otherId otherOrdinal other (isDone | ⟨rfl, rfl⟩) otherPlaced
    · rw [StreamMap.entry_insert]
      split
      · rename_i same
        exact ⟨_, highwater, (smaller _ _ _ isDone otherPlaced same.symm).le⟩
      · exact indexes.below _ _ _ isDone otherPlaced
    · obtain rfl := otherPlaced.unique placed
      rw [StreamMap.entry_insert, if_pos rfl]
      exact ⟨_, highwater, Nat.le_refl _⟩
  · intro streamId sequence pointer found
    rw [StreamMap.entry_insert] at found
    split at found
    · rename_i same
      subst same
      rw [pending] at found
      obtain ⟨isSequence, rfl⟩ | ⟨-, found⟩ := Maps.getElem?_insert_eq_some.mp found
      · exact ⟨.inr ⟨rfl, rfl⟩, record, placed, rfl, isSequence, unreleased⟩
      · obtain ⟨isDone, rest⟩ := indexes.place _ _ _ found
        exact ⟨.inl isDone, rest⟩
    · obtain ⟨isDone, rest⟩ := indexes.place _ _ _ found
      exact ⟨.inl isDone, rest⟩
  · rintro otherId otherOrdinal other (isDone | ⟨rfl, rfl⟩) otherPlaced otherUnreleased
    · have wasPending := indexes.pending _ _ _ isDone otherPlaced otherUnreleased
      rw [StreamMap.entry_insert]
      split
      · rename_i same
        have different : record.sequence ≠ other.sequence :=
          (smaller _ _ _ isDone otherPlaced same.symm).ne'
        rw [pending, Maps.getElem?_insert_of_ne different, same]
        exact wasPending
      · exact wasPending
    · obtain rfl := otherPlaced.unique placed
      rw [StreamMap.entry_insert, if_pos rfl, pending, ExtTreeMap.getElem?_insert_self]

/-- A pending record is released: its flag is set and it leaves the pending ones. -/
theorem release (indexes : Indexes segments streams fun _ _ => True) {streamId : StreamId}
    {sequence : Nat} {pointer : RecordPointer}
    (found : (streams.entry streamId).pending[sequence]? = some pointer) {segment marked : Segment}
    (holder : segments[pointer.segmentId]? = some segment)
    (flagged : marked.records = segment.records.modify pointer.ordinal fun record =>
      { record with released := true })
    (highwater : state.highwater = (streams.entry streamId).highwater)
    (pending : state.pending = (streams.entry streamId).pending.erase sequence) :
    Indexes (segments.insert pointer.segmentId marked) (streams.insert streamId state)
      fun _ _ => True := by
  obtain ⟨-, target, ⟨holding, isHolding, isTarget⟩, rfl, rfl, targetPending⟩ :=
    indexes.place _ _ _ found
  cases holder.symm.trans isHolding
  -- the places are the old ones, and only the flag of the target differs
  have old : ∀ otherId otherOrdinal other,
      Placed (segments.insert pointer.segmentId marked) otherId otherOrdinal other →
        ∃ was, Placed segments otherId otherOrdinal was ∧ was.streamId = other.streamId ∧
          was.sequence = other.sequence ∧ (other.released = false → was = other ∧
            ¬ (otherId = pointer.segmentId ∧ otherOrdinal = pointer.ordinal)) := by
    rintro otherId otherOrdinal other ⟨inside, isInside, isOther⟩
    obtain ⟨rfl, rfl⟩ | ⟨otherSegment, isInside⟩ := Maps.getElem?_insert_eq_some.mp isInside
    · rw [flagged, List.getElem?_modify] at isOther
      obtain ⟨was, isWas, rfl⟩ := Option.map_eq_some_iff.mp isOther
      refine ⟨was, ⟨segment, holder, isWas⟩, ?_, ?_, ?_⟩
      · split <;> rfl
      · split <;> rfl
      · intro unreleased
        split at unreleased
        · cases unreleased
        · rename_i different
          exact ⟨by rw [if_neg different], fun same => different same.2.symm⟩
    · exact ⟨other, ⟨inside, isInside, isOther⟩, rfl, rfl,
        fun _ => ⟨rfl, fun same => otherSegment same.1.symm⟩⟩
  -- an unreleased record other than the target keeps its place
  have kept : ∀ otherId otherOrdinal other, Placed segments otherId otherOrdinal other →
      ¬ (otherId = pointer.segmentId ∧ otherOrdinal = pointer.ordinal) →
        Placed (segments.insert pointer.segmentId marked) otherId otherOrdinal other := by
    rintro otherId otherOrdinal other ⟨inside, isInside, isOther⟩ different
    by_cases sameId : pointer.segmentId = otherId
    · subst sameId
      cases holder.symm.trans isInside
      refine ⟨marked, ExtTreeMap.getElem?_insert_self, ?_⟩
      have notTarget : pointer.ordinal ≠ otherOrdinal := fun same => different ⟨rfl, same.symm⟩
      rw [flagged, List.getElem?_modify, isOther]
      simp [notTarget]
    · exact ⟨inside, (Maps.getElem?_insert_of_ne sameId).trans isInside, isOther⟩
  refine ⟨?_, ?_, ?_, ?_⟩
  · intro segmentId ordinal record otherId otherOrdinal other _ _ placed otherPlaced sameStream
      sameSequence
    obtain ⟨was, wasPlaced, wasStream, wasSequence, -⟩ := old _ _ _ placed
    obtain ⟨otherWas, otherWasPlaced, otherStream, otherSequence, -⟩ := old _ _ _ otherPlaced
    exact indexes.unique _ _ _ _ _ _ trivial trivial wasPlaced otherWasPlaced
      (by rw [wasStream, otherStream, sameStream]) (by rw [wasSequence, otherSequence, sameSequence])
  · intro otherId otherOrdinal other _ placed
    obtain ⟨was, wasPlaced, wasStream, wasSequence, -⟩ := old _ _ _ placed
    obtain ⟨value, isValue, bound⟩ := indexes.below _ _ _ trivial wasPlaced
    rw [wasStream] at isValue
    rw [wasSequence] at bound
    rw [StreamMap.entry_insert]
    split
    · rename_i same
      exact ⟨value, by rw [highwater, same]; exact isValue, bound⟩
    · exact ⟨value, isValue, bound⟩
  · intro other value place isPending
    have wasPending : (streams.entry other).pending[value]? = some place ∧
        ¬ (other = target.streamId ∧ value = target.sequence) := by
      rw [StreamMap.entry_insert] at isPending
      split at isPending
      · rename_i same
        subst same
        rw [pending] at isPending
        obtain ⟨different, isPending⟩ := Maps.getElem?_erase_eq_some.mp isPending
        exact ⟨isPending, fun same => different same.2.symm⟩
      · rename_i different
        exact ⟨isPending, fun same => different same.1.symm⟩
    obtain ⟨was, different⟩ := wasPending
    obtain ⟨-, record, placed, isStream, isSequence, unreleased⟩ := indexes.place _ _ _ was
    refine ⟨trivial, record, kept _ _ _ placed ?_, isStream, isSequence, unreleased⟩
    rintro ⟨sameId, sameOrdinal⟩
    have targetPlaced : Placed segments pointer.segmentId pointer.ordinal target :=
      ⟨segment, holder, isTarget⟩
    rw [sameId, sameOrdinal] at placed
    obtain rfl := placed.unique targetPlaced
    exact different ⟨isStream.symm, isSequence.symm⟩
  · intro otherId otherOrdinal other _ placed unreleased
    obtain ⟨was, wasPlaced, -, -, same⟩ := old _ _ _ placed
    obtain ⟨rfl, different⟩ := same unreleased
    have wasPending := indexes.pending _ _ _ trivial wasPlaced unreleased
    have notTarget : ¬ (target.streamId = was.streamId ∧ target.sequence = was.sequence) := by
      rintro ⟨sameStream, sameSequence⟩
      have equal := indexes.unique _ _ _ _ _ _ trivial trivial wasPlaced
        ⟨segment, holder, isTarget⟩ sameStream.symm sameSequence.symm
      exact different equal
    rw [StreamMap.entry_insert]
    split
    · rename_i sameStream
      have different : target.sequence ≠ was.sequence := fun equal => notTarget ⟨sameStream, equal⟩
      rw [pending, Maps.getElem?_erase_of_ne different, sameStream]
      exact wasPending
    · exact wasPending

end Indexes

/-! ### Counting -/

/-- Two predicates that differ at one number hold for numbers of elements that differ by it. -/
theorem countP_range_update {left right : Nat → Bool} {key bound : Nat} (inside : key < bound)
    (same : ∀ other, other ≠ key → left other = right other) :
    (List.range bound).countP left + (right key).toNat =
      (List.range bound).countP right + (left key).toNat := by
  induction bound with
  | zero => omega
  | succ bound ih =>
    rw [List.range_succ, List.countP_append, List.countP_append, List.countP_singleton,
      List.countP_singleton]
    by_cases isLast : key = bound
    · subst isLast
      have equal : (List.range key).countP left = (List.range key).countP right := by
        refine List.countP_congr fun other member => ?_
        rw [same other (Nat.ne_of_lt (List.mem_range.mp member))]
      rw [equal]
      cases left key <;> cases right key <;> simp
    · have before := ih (by omega)
      rw [same bound (Ne.symm isLast)]
      omega

/-- The number of segments that may be removed. -/
def reclaimableCount (segments : SegmentMap) (bound : Nat) : Nat :=
  (List.range bound).countP fun segmentId => segments[segmentId]?.any Segment.isReclaimable

theorem reclaimableCount_le (segments : SegmentMap) (bound : Nat) :
    reclaimableCount segments bound ≤ bound := by
  have length := @List.countP_le_length _
    (fun segmentId => segments[segmentId]?.any Segment.isReclaimable) (List.range bound)
  rwa [List.length_range] at length

/-- The number after a segment was replaced. -/
theorem reclaimableCount_insert {segments : SegmentMap} {bound segmentId : Nat}
    (inside : segmentId < bound) {segment next : Segment}
    (found : segments[segmentId]? = some segment) :
    reclaimableCount (segments.insert segmentId next) bound + segment.isReclaimable.toNat =
      reclaimableCount segments bound + next.isReclaimable.toNat := by
  have updated := @countP_range_update
    (fun other => (segments.insert segmentId next)[other]?.any Segment.isReclaimable)
    (fun other => segments[other]?.any Segment.isReclaimable) segmentId bound inside
    (fun other different => by rw [Maps.getElem?_insert_of_ne different.symm])
  simpa [found, reclaimableCount] using updated

/-- The number after a segment was taken out. -/
theorem reclaimableCount_erase {segments : SegmentMap} {bound segmentId : Nat}
    (inside : segmentId < bound) {segment : Segment}
    (found : segments[segmentId]? = some segment) :
    reclaimableCount (segments.erase segmentId) bound + segment.isReclaimable.toNat =
      reclaimableCount segments bound := by
  have updated := @countP_range_update
    (fun other => (segments.erase segmentId)[other]?.any Segment.isReclaimable)
    (fun other => segments[other]?.any Segment.isReclaimable) segmentId bound inside
    (fun other different => by rw [Maps.getElem?_erase_of_ne different.symm])
  simpa [found, reclaimableCount] using updated

/-- The number after a segment was created. -/
theorem reclaimableCount_create {segments : SegmentMap} {segment : Segment}
    (isOpen : segment.footer = none) :
    reclaimableCount (segments.insert bound segment) (bound + 1) = reclaimableCount segments bound := by
  unfold reclaimableCount
  rw [List.range_succ, List.countP_append, List.countP_singleton]
  have created : ((segments.insert bound segment)[bound]?.any Segment.isReclaimable) = false := by
    simp [Segment.isReclaimable, isOpen]
  rw [created]
  refine List.countP_congr fun other member => ?_
  have different : other ≠ bound := Nat.ne_of_lt (List.mem_range.mp member)
  rw [Maps.getElem?_insert_of_ne different.symm]

/-! ### The invariant -/

/-- What the index is about. -/
structure IndexView where
  segments : SegmentMap
  streams : StreamMap
  activeSegment : Option Nat
  nextSegmentId : Nat
  reclaimableSegments : Nat

/-- The index of an open root. -/
def Storage.indexView (storage : Storage) : IndexView where
  segments := storage.segments
  streams := storage.streams
  activeSegment := storage.activeSegment
  nextSegmentId := storage.nextSegmentId
  reclaimableSegments := storage.reclaimableSegments

/-- The unreleased records of a segment. -/
def Segment.unreleasedCount (segment : Segment) : Nat :=
  segment.records.countP fun record => !record.released

/-- **The invariant of an open root.** -/
structure IndexView.Sound (view : IndexView) : Prop where
  indexes : Indexes view.segments view.streams fun _ _ => True
  counted : ∀ (segmentId : Nat) (segment : Segment), view.segments[segmentId]? = some segment →
    segment.unreleasedRecords = segment.unreleasedCount
  isOpen : ∀ segmentId, view.activeSegment = some segmentId →
    ∃ segment, view.segments[segmentId]? = some segment ∧ segment.footer = none
  isActive : ∀ (segmentId : Nat) (segment : Segment), view.segments[segmentId]? = some segment →
    segment.footer = none → view.activeSegment = some segmentId
  greatest : ∀ segmentId, view.activeSegment = some segmentId →
    ∀ other ∈ view.segments, other ≤ segmentId
  identities : ∀ segmentId ∈ view.segments, segmentId < view.nextSegmentId
  last : view.nextSegmentId ≤ wordMax
  reclaimable : view.reclaimableSegments = reclaimableCount view.segments view.nextSegmentId

namespace IndexView.Sound

variable {view : IndexView}

theorem identity_of_found (sound : view.Sound) {segment : Segment}
    (found : view.segments[segmentId]? = some segment) : segmentId < view.nextSegmentId :=
  sound.identities segmentId (Maps.mem_iff_found.mpr ⟨_, found⟩)

theorem onStreams (sound : view.Sound) {streams : StreamMap}
    (highwater : ∀ streamId, (streams.entry streamId).highwater =
      (view.streams.entry streamId).highwater)
    (pending : ∀ streamId, (streams.entry streamId).pending =
      (view.streams.entry streamId).pending) : ({ view with streams := streams } : IndexView).Sound :=
  { sound with indexes := sound.indexes.onStreams highwater pending }

/-- A segment is replaced by one that shows the same records or more, indexed by the new streams. -/
theorem replace (sound : view.Sound) {segmentId : Nat} {segment next : Segment}
    (found : view.segments[segmentId]? = some segment) {streams : StreamMap}
    (indexes : Indexes (view.segments.insert segmentId next) streams fun _ _ => True)
    (counted : next.unreleasedRecords = next.unreleasedCount) {active : Option Nat}
    (activeIs : active = if next.footer.isSome && view.activeSegment = some segmentId then none
      else view.activeSegment)
    (sealing : segment.footer.isSome = true → next.footer.isSome = true) {reclaimable : Nat}
    (isReclaimable : reclaimable + segment.isReclaimable.toNat =
      view.reclaimableSegments + next.isReclaimable.toNat) :
    (⟨view.segments.insert segmentId next, streams, active, view.nextSegmentId, reclaimable⟩ :
      IndexView).Sound where
  indexes := indexes
  counted := by
    intro otherId other isOther
    obtain ⟨-, rfl⟩ | ⟨-, isOther⟩ := Maps.getElem?_insert_eq_some.mp isOther
    · exact counted
    · exact sound.counted otherId other isOther
  isOpen := by
    intro otherId isActive
    rw [activeIs] at isActive
    split at isActive
    · cases isActive
    · rename_i stays
      have wasActive : view.activeSegment = some otherId := isActive
      obtain ⟨other, isOther, noFooter⟩ := sound.isOpen otherId wasActive
      by_cases same : segmentId = otherId
      · subst same
        refine ⟨next, ExtTreeMap.getElem?_insert_self, ?_⟩
        cases footer : next.footer with
        | none => rfl
        | some value =>
          simp [footer, wasActive] at stays
      · exact ⟨other, (Maps.getElem?_insert_of_ne same).trans isOther, noFooter⟩
  isActive := by
    intro otherId other isOther noFooter
    rw [activeIs]
    obtain ⟨rfl, rfl⟩ | ⟨different, isOther⟩ := Maps.getElem?_insert_eq_some.mp isOther
    · have wasOpen : segment.footer = none := by
        cases footer : segment.footer with
        | none => rfl
        | some value =>
          have sealedToo := sealing (by rw [footer]; rfl)
          rw [noFooter] at sealedToo
          cases sealedToo
      rw [noFooter]
      exact sound.isActive segmentId segment found wasOpen
    · have wasActive := sound.isActive otherId other isOther noFooter
      have otherOne : view.activeSegment ≠ some segmentId := by
        rw [wasActive]
        intro equal
        cases equal
        exact different rfl
      rw [if_neg (by simp [otherOne])]
      exact wasActive
  greatest := by
    intro otherId isActive
    have wasActive : view.activeSegment = some otherId := by
      rw [activeIs] at isActive
      split at isActive
      · cases isActive
      · exact isActive
    intro other member
    obtain rfl | old := Maps.mem_insert.mp member
    · exact sound.greatest otherId wasActive segmentId
        (Maps.mem_iff_found.mpr ⟨_, found⟩)
    · exact sound.greatest otherId wasActive other old
  identities := by
    intro otherId member
    obtain rfl | old := Maps.mem_insert.mp member
    · exact sound.identity_of_found found
    · exact sound.identities otherId old
  last := sound.last
  reclaimable := by
    have updated := @reclaimableCount_insert view.segments view.nextSegmentId segmentId
      (sound.identity_of_found found) segment next found
    have counted := sound.reclaimable
    show reclaimable = reclaimableCount (view.segments.insert segmentId next) view.nextSegmentId
    omega

/-- A segment without unreleased records is taken out. -/
theorem drop (sound : view.Sound) {segment : Segment}
    (found : view.segments[segmentId]? = some segment) (eligible : segment.isReclaimable = true)
    (isReclaimable : reclaimable + 1 = view.reclaimableSegments) :
    ({ view with
      segments := view.segments.erase segmentId
      reclaimableSegments := reclaimable } : IndexView).Sound := by
  simp only [Segment.isReclaimable, Bool.and_eq_true, decide_eq_true_eq] at eligible
  obtain ⟨isSealed, drained⟩ := eligible
  have lookup : ∀ {otherId : Nat} {other : Segment},
      (view.segments.erase segmentId)[otherId]? = some other →
        segmentId ≠ otherId ∧ view.segments[otherId]? = some other := Maps.getElem?_erase_eq_some.mp
  have stays : ∀ {otherId : Nat}, segmentId ≠ otherId →
      (view.segments.erase segmentId)[otherId]? = view.segments[otherId]? := Maps.getElem?_erase_of_ne
  have noneLeft : ∀ record ∈ segment.records, record.released = true := by
    have none := sound.counted segmentId segment found
    rw [drained, Segment.unreleasedCount, eq_comm, List.countP_eq_zero] at none
    intro record member
    simpa using none record member
  have member : ∀ {otherId : Nat}, otherId ∈ view.segments.erase segmentId →
      otherId ∈ view.segments := fun isMember => ExtTreeMap.mem_of_mem_erase isMember
  refine ⟨?_, ?_, ?_, ?_, ?_, ?_, sound.last, ?_⟩
  · refine sound.indexes.onSegments ?_ ?_
    · rintro otherId ordinal record - ⟨other, isOther, isRecord⟩
      exact ⟨trivial, other, (lookup isOther).2, isRecord⟩
    · rintro otherId ordinal record - ⟨other, isOther, isRecord⟩ unreleased
      refine ⟨trivial, other, ?_, isRecord⟩
      rw [stays]
      · exact isOther
      · rintro rfl
        cases found.symm.trans isOther
        rw [noneLeft record (List.mem_of_getElem? isRecord)] at unreleased
        cases unreleased
  · intro otherId other isOther
    exact sound.counted otherId other (lookup isOther).2
  · intro otherId isActive
    obtain ⟨other, isOther, noFooter⟩ := sound.isOpen otherId isActive
    refine ⟨other, ?_, noFooter⟩
    rw [stays]
    · exact isOther
    · rintro rfl
      cases found.symm.trans isOther
      rw [noFooter] at isSealed
      cases isSealed
  · intro otherId other isOther
    exact sound.isActive otherId other (lookup isOther).2
  · intro otherId isActive other isOther
    exact sound.greatest otherId isActive other (member isOther)
  · intro otherId isOther
    exact sound.identities otherId (member isOther)
  · have updated := @reclaimableCount_erase view.segments view.nextSegmentId segmentId
      (sound.identity_of_found found) segment found
    have counted := sound.reclaimable
    rw [Segment.isReclaimable, isSealed, drained] at updated
    show reclaimable = reclaimableCount (view.segments.erase segmentId) view.nextSegmentId
    simp only [decide_true, Bool.and_self, Bool.toNat_true] at updated
    omega

/-- A segment is created. -/
theorem create (sound : view.Sound) (noActive : view.activeSegment = none)
    (room : view.nextSegmentId ≠ wordMax) {segment : Segment} {streams : StreamMap}
    (indexes : Indexes (view.segments.insert view.nextSegmentId segment) streams fun _ _ => True)
    (counted : segment.unreleasedRecords = segment.unreleasedCount)
    (noFooter : segment.footer = none) :
    (⟨view.segments.insert view.nextSegmentId segment, streams, some view.nextSegmentId,
      view.nextSegmentId + 1, view.reclaimableSegments⟩ : IndexView).Sound where
  indexes := indexes
  counted := by
    intro otherId other isOther
    obtain ⟨-, rfl⟩ | ⟨-, isOther⟩ := Maps.getElem?_insert_eq_some.mp isOther
    · exact counted
    · exact sound.counted otherId other isOther
  isOpen := by
    rintro otherId ⟨⟩
    exact ⟨segment, ExtTreeMap.getElem?_insert_self, noFooter⟩
  isActive := by
    intro otherId other isOther otherOpen
    obtain ⟨rfl, -⟩ | ⟨-, isOther⟩ := Maps.getElem?_insert_eq_some.mp isOther
    · rfl
    · have wasActive := sound.isActive otherId other isOther otherOpen
      rw [noActive] at wasActive
      cases wasActive
  greatest := by
    rintro otherId ⟨⟩ other member
    rcases Maps.mem_insert.mp member with same | old
    · exact same.ge
    · exact (sound.identities other old).le
  identities := by
    intro otherId member
    obtain rfl | old := Maps.mem_insert.mp member
    · exact Nat.lt_succ_self _
    · exact (sound.identities otherId old).trans (Nat.lt_succ_self _)
  last := by
    have bound := sound.last
    show view.nextSegmentId + 1 ≤ wordMax
    omega
  reclaimable := by
    show view.reclaimableSegments = _
    rw [reclaimableCount_create noFooter]
    exact sound.reclaimable

end IndexView.Sound

end Camus
