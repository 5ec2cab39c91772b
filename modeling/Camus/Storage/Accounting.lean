/-
**The bytes of a root and its streams.**

A root counts the bytes of its files, and of those it may reclaim. A segment counts the streams of its
records, and a stream ends in the active segment exactly if it has a record there. Every stream the
root knows has left bytes in the files: an entry of the checkpoint, an entry of a removal frame, or a
record of a live segment. So the count bounds the number of streams.

* `BookView.Balanced` — the counts are those of control files and segments, and these cover what is
  persisted and what is in the segments.
* `BookView.Balanced.covers_streams` — the files of a root are at least as long as those of a compacted
  root with the same streams.
* `BookView.Balanced.replace`, `.create`, `.drop`, `.persist`, `.compact` — what keeps the accounts
  balanced.
-/

import Camus.Storage.Capacity
import Camus.Storage.Opened
import Mathlib.Algebra.BigOperators.Ring.Finset
import Mathlib.Algebra.Order.BigOperators.Group.Finset

namespace Camus

open Codec Checked Disk FaultIo Std

variable {control actual reclaimable : Nat} {active : Option Nat}

/-- The bytes of a checkpoint of some streams and no segment. -/
def checkpointBytes (streams : Nat) : Nat := checkpointHeaderLen + 24 + streams * 16

/-! ### Sums over segments -/

theorem sum_range_update {left right : Nat → Nat} {key bound : Nat} (inside : key < bound)
    (same : ∀ other, other ≠ key → left other = right other) :
    (∑ index ∈ Finset.range bound, left index) + right key =
      (∑ index ∈ Finset.range bound, right index) + left key := by
  have member : key ∈ Finset.range bound := Finset.mem_range.mpr inside
  have rest : ∑ index ∈ (Finset.range bound).erase key, left index =
      ∑ index ∈ (Finset.range bound).erase key, right index :=
    Finset.sum_congr rfl fun index isOther => same index (Finset.ne_of_mem_erase isOther)
  rw [← Finset.add_sum_erase _ left member, ← Finset.add_sum_erase _ right member, rest]
  omega

/-- A number of every segment, summed. -/
def segmentSum (measure : Segment → Nat) (segments : SegmentMap) (bound : Nat) : Nat :=
  ∑ segmentId ∈ Finset.range bound, (segments[segmentId]?.map measure).getD 0

section

variable {measure : Segment → Nat} {segments : SegmentMap} {bound segmentId : Nat}
  {segment next : Segment}

theorem segmentSum_insert (inside : segmentId < bound) (found : segments[segmentId]? = some segment) :
    segmentSum measure (segments.insert segmentId next) bound + measure segment =
      segmentSum measure segments bound + measure next := by
  have updated := @sum_range_update
    (fun other => ((segments.insert segmentId next)[other]?.map measure).getD 0)
    (fun other => (segments[other]?.map measure).getD 0) segmentId bound inside
    (fun other different => by rw [Maps.getElem?_insert_of_ne different.symm])
  simpa [found, segmentSum] using updated

theorem segmentSum_erase (inside : segmentId < bound) (found : segments[segmentId]? = some segment) :
    segmentSum measure (segments.erase segmentId) bound + measure segment =
      segmentSum measure segments bound := by
  have updated := @sum_range_update
    (fun other => ((segments.erase segmentId)[other]?.map measure).getD 0)
    (fun other => (segments[other]?.map measure).getD 0) segmentId bound inside
    (fun other different => by rw [Maps.getElem?_erase_of_ne different.symm])
  simpa [found, segmentSum] using updated

theorem segmentSum_create :
    segmentSum measure (segments.insert bound next) (bound + 1) =
      segmentSum measure segments bound + measure next := by
  unfold segmentSum
  rw [Finset.sum_range_succ]
  congr 1
  · refine Finset.sum_congr rfl fun other member => ?_
    have different : other ≠ bound := Nat.ne_of_lt (Finset.mem_range.mp member)
    rw [Maps.getElem?_insert_of_ne different.symm]
  · rw [ExtTreeMap.getElem?_insert_self]
    rfl

end

/-- The bytes of a segment that may be removed. -/
def Segment.reclaimableLen (segment : Segment) : Nat :=
  if segment.isReclaimable then segment.fileLen else 0

theorem Segment.reclaimableLen_le (segment : Segment) : segment.reclaimableLen ≤ segment.fileLen := by
  unfold Segment.reclaimableLen
  split
  · exact Nat.le_refl _
  · exact Nat.zero_le _

theorem segmentSum_mono {measure bound : Segment → Nat} (below : ∀ segment, measure segment ≤ bound segment)
    (segments : SegmentMap) (size : Nat) :
    segmentSum measure segments size ≤ segmentSum bound segments size := by
  refine Finset.sum_le_sum fun segmentId _ => ?_
  cases segments[segmentId]? with
  | none => exact Nat.le_refl _
  | some segment => exact below segment

/-! ### The invariant -/

/-- What the accounting is about. -/
structure BookView where
  control : Nat
  actual : Nat
  segments : SegmentMap
  streams : StreamMap
  nextSegmentId : Nat
  activeSegment : Option Nat
  reclaimable : Nat

/-- The accounts of an open root. -/
def Storage.bookView (storage : Storage) : BookView where
  control := storage.manifest.checkpointLen + storage.manifest.logLen
  actual := storage.actualFileBytes
  segments := storage.segments
  streams := storage.streams
  nextSegmentId := storage.nextSegmentId
  activeSegment := storage.activeSegment
  reclaimable := storage.reclaimableBytes

/-- The streams of the records of a segment. -/
def Segment.streamIds (segment : Segment) : List StreamId := segment.records.map (·.streamId)

/-- The root has persisted a high-water of a stream. -/
def StreamMap.persists (streams : StreamMap) (streamId : StreamId) : Prop :=
  (streams.entry streamId).persistedHighwater.isSome = true

/-- The streams of the active segment end there. -/
def EndsIn (segments : SegmentMap) (streams : StreamMap) (active : Option Nat) : Prop :=
  ∀ (activeId : Nat) (segment : Segment), active = some activeId →
    segments[activeId]? = some segment → ∀ streamId ∈ segment.streamIds,
      (streams.entry streamId).lastSegmentId = some activeId

/-- **The accounts of an open root are balanced.** -/
structure BookView.Balanced (view : BookView) : Prop where
  books : rootSuperblockLen + view.control +
    segmentSum Segment.fileLen view.segments view.nextSegmentId = view.actual
  bounded : view.actual ≤ wordMax
  persisted : ∀ ids : List StreamId, ids.Nodup → (∀ streamId ∈ ids, view.streams.persists streamId) →
    checkpointBytes ids.length + manifestLogHeaderLen ≤ view.control
  known : ∀ streamId ∈ view.streams, view.streams.persists streamId ∨
    ∃ (segmentId : Nat) (segment : Segment), view.segments[segmentId]? = some segment ∧
      streamId ∈ segment.streamIds
  backed : ∀ streamId, view.streams.persists streamId →
    (view.streams.entry streamId).highwater.isSome = true
  long : ∀ (segmentId : Nat) (segment : Segment), view.segments[segmentId]? = some segment →
    segmentHeaderLen + 16 * segment.records.length ≤ segment.fileLen
  last : ∀ (streamId : StreamId) (segmentId : Nat),
    (view.streams.entry streamId).lastSegmentId = some segmentId → segmentId < view.nextSegmentId ∧
      ∀ segment, view.segments[segmentId]? = some segment → streamId ∈ segment.streamIds
  ends : EndsIn view.segments view.streams view.activeSegment
  unique : ∀ (segmentId : Nat) (segment : Segment), view.segments[segmentId]? = some segment →
    segment.uniqueStreams = segment.streamIds.dedup.length
  reclaimable : view.reclaimable =
    segmentSum Segment.reclaimableLen view.segments view.nextSegmentId

/-- What indexing records of the streams `ids` in a segment does to the streams. -/
structure Restands (streams next : StreamMap) (segmentId : Nat) (ids : List StreamId) : Prop where
  known : ∀ streamId, streamId ∈ next ↔ streamId ∈ streams ∨ streamId ∈ ids
  persists : ∀ streamId, next.persists streamId ↔ streams.persists streamId
  backed : ∀ streamId, (streams.entry streamId).highwater.isSome = true →
    (next.entry streamId).highwater.isSome = true
  last : ∀ streamId, (next.entry streamId).lastSegmentId =
    if streamId ∈ ids then some segmentId else (streams.entry streamId).lastSegmentId

theorem Restands.refl (streams : StreamMap) (segmentId : Nat) : Restands streams streams segmentId [] :=
  ⟨fun _ => by simp, fun _ => .rfl, fun _ => id, fun _ => rfl⟩

/-- What persisting the high-waters of the streams `fresh` does. -/
structure Persisting (streams next : StreamMap) (fresh : List StreamId) : Prop where
  known : ∀ streamId ∈ next, streamId ∈ streams
  new : ∀ streamId, next.persists streamId → streams.persists streamId ∨ streamId ∈ fresh
  keeps : ∀ streamId, streams.persists streamId ∨ streamId ∈ fresh → next.persists streamId
  highwater : ∀ streamId, (next.entry streamId).highwater = (streams.entry streamId).highwater
  last : ∀ streamId, (next.entry streamId).lastSegmentId = (streams.entry streamId).lastSegmentId

theorem Persisting.refl (streams : StreamMap) : Persisting streams streams [] :=
  ⟨fun _ => id, fun _ => .inl, fun _ => Or.rec id nofun, fun _ => rfl, fun _ => rfl⟩

namespace BookView.Balanced

variable {view : BookView} {streams : StreamMap} {fresh : List StreamId}

/-- The streams that are not persisted have records in the segments. -/
theorem unpersisted_le (balanced : view.Balanced)
    (identities : ∀ segmentId ∈ view.segments, segmentId < view.nextSegmentId) {ids : List StreamId}
    (distinct : ids.Nodup) (areKnown : ∀ streamId ∈ ids, streamId ∈ view.streams)
    (unpersisted : ∀ streamId ∈ ids, ¬ view.streams.persists streamId) :
    ids.length ≤ segmentSum (fun segment => segment.records.length) view.segments
      view.nextSegmentId := by
  let held (segmentId : Nat) : Finset StreamId :=
    ((view.segments[segmentId]?.map Segment.streamIds).getD []).toFinset
  have inside : ids.toFinset ⊆ (Finset.range view.nextSegmentId).biUnion held := by
    intro streamId member
    have isMember : streamId ∈ ids := List.mem_toFinset.mp member
    rcases balanced.known streamId (areKnown streamId isMember) with persists | holds
    · exact absurd persists (unpersisted streamId isMember)
    · obtain ⟨segmentId, segment, found, isHeld⟩ := holds
      refine Finset.mem_biUnion.mpr ⟨segmentId, Finset.mem_range.mpr (identities segmentId ?_), ?_⟩
      · rw [ExtTreeMap.mem_iff_isSome_getElem?, found]
        rfl
      · simpa [held, found] using isHeld
  rw [← List.toFinset_card_of_nodup distinct]
  refine (Finset.card_le_card inside).trans (Finset.card_biUnion_le.trans ?_)
  refine Finset.sum_le_sum fun segmentId _ => ?_
  cases found : view.segments[segmentId]? with
  | none => simp [held, found]
  | some segment =>
    have bound := List.toFinset_card_le segment.streamIds
    simpa [held, found, Segment.streamIds] using bound

/-- The segments are longer than the entries of their records, by a header if there is a segment. -/
theorem segmentSum_le (balanced : view.Balanced) :
    16 * segmentSum (fun segment => segment.records.length) view.segments view.nextSegmentId ≤
      segmentSum Segment.fileLen view.segments view.nextSegmentId := by
  unfold segmentSum
  rw [Finset.mul_sum]
  refine Finset.sum_le_sum fun segmentId _ => ?_
  cases found : view.segments[segmentId]? with
  | none => simp
  | some segment =>
    have long := balanced.long segmentId segment found
    simp only [Option.map_some, Option.getD_some]
    omega

theorem header_add_segmentSum_le (balanced : view.Balanced)
    (identities : ∀ segmentId ∈ view.segments, segmentId < view.nextSegmentId) {segmentId : Nat}
    {segment : Segment} (found : view.segments[segmentId]? = some segment) :
    segmentHeaderLen + 16 * segmentSum (fun segment => segment.records.length) view.segments
      view.nextSegmentId ≤ segmentSum Segment.fileLen view.segments view.nextSegmentId := by
  have inside : segmentId < view.nextSegmentId := by
    refine identities segmentId ?_
    rw [ExtTreeMap.mem_iff_isSome_getElem?, found]
    rfl
  have member : segmentId ∈ Finset.range view.nextSegmentId := Finset.mem_range.mpr inside
  have long := balanced.long segmentId segment found
  unfold segmentSum
  rw [Finset.mul_sum, ← Finset.add_sum_erase _ _ member, ← Finset.add_sum_erase _
    (fun segmentId => (view.segments[segmentId]?.map Segment.fileLen).getD 0) member]
  have rest : ∑ other ∈ (Finset.range view.nextSegmentId).erase segmentId,
      16 * (view.segments[other]?.map fun segment => segment.records.length).getD 0 ≤
      ∑ other ∈ (Finset.range view.nextSegmentId).erase segmentId,
        (view.segments[other]?.map Segment.fileLen).getD 0 := by
    refine Finset.sum_le_sum fun other _ => ?_
    cases isOther : view.segments[other]? with
    | none => simp
    | some otherSegment =>
      have otherLong := balanced.long other otherSegment isOther
      simp only [Option.map_some, Option.getD_some]
      omega
  simp only [found, Option.map_some, Option.getD_some]
  omega

/-- **The files of a root are at least as long as those of a compacted root with its streams**, and by
the header of a segment longer if it has one. -/
theorem covers_streams (balanced : view.Balanced)
    (identities : ∀ segmentId ∈ view.segments, segmentId < view.nextSegmentId) :
    rootSuperblockLen + checkpointBytes view.streams.size + manifestLogHeaderLen +
      segmentSum Segment.fileLen view.segments view.nextSegmentId ≤
        view.actual + 16 * segmentSum (fun segment => segment.records.length) view.segments
          view.nextSegmentId := by
  classical
  have books := balanced.books
  have persisted := balanced.persisted
    (view.streams.keys.filter fun streamId => view.streams.persists streamId)
    (ExtTreeMap.nodup_keys.filter _)
    (fun streamId member => of_decide_eq_true (List.mem_filter.mp member).2)
  have unpersisted := balanced.unpersisted_le identities
    (ExtTreeMap.nodup_keys.filter fun streamId => !decide (view.streams.persists streamId))
    (fun streamId member => ExtTreeMap.mem_keys.mp (List.mem_filter.mp member).1)
    (fun streamId member => by simpa using (List.mem_filter.mp member).2)
  have all := List.length_eq_length_filter_add (l := view.streams.keys)
    fun streamId => decide (view.streams.persists streamId)
  rw [ExtTreeMap.length_keys] at all
  unfold checkpointBytes at persisted ⊢
  omega

/-! ### What keeps the accounts balanced -/

/-- The bytes that may be reclaimed, and those of a segment that may not, are bytes of the files. -/
theorem reclaimable_add_le (balanced : view.Balanced) {segmentId : Nat} {segment : Segment}
    (inside : segmentId < view.nextSegmentId) (found : view.segments[segmentId]? = some segment)
    (kept : segment.isReclaimable = false) : view.reclaimable + segment.fileLen ≤ view.actual := by
  have nothing : segment.reclaimableLen = 0 := by simp [Segment.reclaimableLen, kept]
  have less := segmentSum_mono Segment.reclaimableLen_le (view.segments.erase segmentId)
    view.nextSegmentId
  have lengths := @segmentSum_erase Segment.fileLen _ _ _ _ inside found
  have parts := @segmentSum_erase Segment.reclaimableLen _ _ _ _ inside found
  have books := balanced.books
  rw [balanced.reclaimable]
  omega

theorem fileLen_le (balanced : view.Balanced) {segmentId : Nat} {segment : Segment}
    (inside : segmentId < view.nextSegmentId) (found : view.segments[segmentId]? = some segment) :
    segment.fileLen ≤ view.actual := by
  have lengths := @segmentSum_erase Segment.fileLen _ _ _ _ inside found
  have books := balanced.books
  omega

section

variable {segmentId : Nat} {segment next : Segment} {ids : List StreamId} (balanced : view.Balanced)
  (bounded : actual ≤ wordMax)
  (long : segmentHeaderLen + 16 * next.records.length ≤ next.fileLen)
  (unique : next.uniqueStreams = next.streamIds.dedup.length)
  (shows : ∀ streamId ∈ ids, streamId ∈ next.streamIds)

include balanced bounded long unique shows

/-- A segment is put at an identity: a fresh one, or that of a segment whose streams it shows. -/
theorem put {identity : Nat} (stands : Restands view.streams streams segmentId ids)
    (ends : EndsIn (view.segments.insert segmentId next) streams active)
    (inside : segmentId < identity) (grows : view.nextSegmentId ≤ identity)
    (books : rootSuperblockLen + view.control +
      segmentSum Segment.fileLen (view.segments.insert segmentId next) identity = actual)
    (isReclaimable : reclaimable =
      segmentSum Segment.reclaimableLen (view.segments.insert segmentId next) identity)
    (fresh : view.segments[segmentId]? = none → view.nextSegmentId ≤ segmentId)
    (keeps : ∀ segment, view.segments[segmentId]? = some segment →
      ∀ streamId ∈ segment.streamIds, streamId ∈ next.streamIds) :
    (⟨view.control, actual, view.segments.insert segmentId next, streams, identity, active,
      reclaimable⟩ : BookView).Balanced := by
  have lookup : ∀ otherId, segmentId ≠ otherId →
      (view.segments.insert segmentId next)[otherId]? = view.segments[otherId]? :=
    fun _ => Maps.getElem?_insert_of_ne
  have placed : (view.segments.insert segmentId next)[segmentId]? = some next :=
    ExtTreeMap.getElem?_insert_self
  -- what holds of the new segment and of the others holds of all
  have every : ∀ {property : Nat → Segment → Prop}, property segmentId next →
      (∀ otherId other, view.segments[otherId]? = some other → property otherId other) →
      ∀ otherId other, (view.segments.insert segmentId next)[otherId]? = some other →
        property otherId other := by
    intro property isNew areOld otherId other isOther
    obtain ⟨rfl, rfl⟩ | ⟨-, isOther⟩ := Maps.getElem?_insert_eq_some.mp isOther
    · exact isNew
    · exact areOld otherId other isOther
  refine
    { books := books
      bounded := bounded
      persisted := fun ids distinct persisted =>
        balanced.persisted ids distinct fun streamId member =>
          (stands.persists streamId).mp (persisted streamId member)
      known := fun streamId member => ?_
      backed := fun streamId isPersisted =>
        stands.backed streamId (balanced.backed streamId ((stands.persists streamId).mp isPersisted))
      long := every long balanced.long
      last := fun streamId other isLast => ?_
      ends := ends
      unique := every unique balanced.unique
      reclaimable := isReclaimable }
  · rcases (stands.known streamId).mp member with old | new
    · rcases balanced.known streamId old with isPersisted | ⟨otherId, other, isOther, isHeld⟩
      · exact .inl ((stands.persists streamId).mpr isPersisted)
      · by_cases same : segmentId = otherId
        · subst same
          exact .inr ⟨segmentId, next, placed, keeps other isOther streamId isHeld⟩
        · exact .inr ⟨otherId, other, (lookup otherId same).trans isOther, isHeld⟩
    · exact .inr ⟨segmentId, next, placed, shows streamId new⟩
  · have isLast : (streams.entry streamId).lastSegmentId = some other := isLast
    rw [stands.last] at isLast
    split at isLast
    · rename_i new
      cases isLast
      refine ⟨inside, fun otherSegment isOther => ?_⟩
      cases placed.symm.trans isOther
      exact shows streamId new
    · obtain ⟨below, holds⟩ := balanced.last streamId other isLast
      refine ⟨below.trans_le grows, fun otherSegment isOther => ?_⟩
      by_cases same : segmentId = other
      · subst same
        cases placed.symm.trans isOther
        cases was : view.segments[segmentId]? with
        | none => exact absurd below (Nat.not_lt.mpr (fresh was))
        | some segment => exact keeps segment was streamId (holds segment was)
      · exact holds otherSegment ((lookup other same).symm.trans isOther)

/-- A segment is replaced by one that shows its streams, or more of them. -/
theorem replace (stands : Restands view.streams streams segmentId ids)
    (ends : EndsIn (view.segments.insert segmentId next) streams active)
    (found : view.segments[segmentId]? = some segment) (inside : segmentId < view.nextSegmentId)
    (paid : actual + segment.fileLen = view.actual + next.fileLen)
    (isReclaimable : reclaimable + segment.reclaimableLen = view.reclaimable + next.reclaimableLen)
    (keeps : ∀ streamId ∈ segment.streamIds, streamId ∈ next.streamIds) :
    (⟨view.control, actual, view.segments.insert segmentId next, streams, view.nextSegmentId, active,
      reclaimable⟩ : BookView).Balanced := by
  have books := balanced.books
  have before := balanced.reclaimable
  have summed := @segmentSum_insert Segment.fileLen _ _ _ _ next inside found
  have parts := @segmentSum_insert Segment.reclaimableLen _ _ _ _ next inside found
  refine balanced.put bounded long unique shows stands ends inside le_rfl (by omega) (by omega)
    (fun absent => ?_) (fun was isWas => ?_)
  · cases found.symm.trans absent
  · cases found.symm.trans isWas
    exact keeps

/-- A new segment, which may not be removed. -/
theorem create (stands : Restands view.streams streams view.nextSegmentId ids)
    (ends : EndsIn (view.segments.insert view.nextSegmentId next) streams active)
    (paid : actual = view.actual + next.fileLen) (kept : next.isReclaimable = false)
    (identities : ∀ segmentId ∈ view.segments, segmentId < view.nextSegmentId) :
    (⟨view.control, actual, view.segments.insert view.nextSegmentId next, streams,
      view.nextSegmentId + 1, active, view.reclaimable⟩ : BookView).Balanced := by
  have books := balanced.books
  have before := balanced.reclaimable
  have nothing : next.reclaimableLen = 0 := by simp [Segment.reclaimableLen, kept]
  have summed := @segmentSum_create Segment.fileLen view.segments view.nextSegmentId next
  have parts := @segmentSum_create Segment.reclaimableLen view.segments view.nextSegmentId next
  refine balanced.put bounded long unique shows stands ends (Nat.lt_add_one _) (Nat.le_add_right _ 1)
    (by omega) (by omega) (fun _ => le_rfl) (fun was isWas => ?_)
  have member : view.nextSegmentId ∈ view.segments :=
    Maps.mem_iff_found.mpr ⟨_, isWas⟩
  exact absurd (identities _ member) (Nat.lt_irrefl _)

end

/-- A segment that may be removed, and whose streams are all persisted, goes, and its bytes with
it. -/
theorem drop (balanced : view.Balanced) {segmentId : Nat} {segment : Segment}
    (found : view.segments[segmentId]? = some segment) (inside : segmentId < view.nextSegmentId)
    (persisted : ∀ streamId ∈ segment.streamIds, view.streams.persists streamId)
    (isReclaimable : segment.isReclaimable = true)
    (left : view.reclaimable = reclaimable + segment.fileLen) :
    ({ view with
      actual := view.actual - segment.fileLen
      segments := view.segments.erase segmentId
      reclaimable := reclaimable } : BookView).Balanced := by
  have old : ∀ (otherId : Nat) (other : Segment),
      (view.segments.erase segmentId)[otherId]? = some other →
        view.segments[otherId]? = some other :=
    fun _ _ isOther => (Maps.getElem?_erase_eq_some.mp isOther).2
  refine
    { balanced with
      books := ?_
      bounded := (Nat.sub_le _ _).trans balanced.bounded
      known := fun streamId member => ?_
      long := fun otherId other isOther => balanced.long otherId other (old otherId other isOther)
      last := fun streamId otherId isLast => ?_
      ends := fun activeId other isActive isOther =>
        balanced.ends activeId other isActive (old activeId other isOther)
      unique := fun otherId other isOther => balanced.unique otherId other (old otherId other isOther)
      reclaimable := ?_ }
  · have books := balanced.books
    have summed := @segmentSum_erase Segment.fileLen _ _ _ _ inside found
    show rootSuperblockLen + view.control + segmentSum Segment.fileLen
      (view.segments.erase segmentId) view.nextSegmentId = view.actual - segment.fileLen
    omega
  · rcases balanced.known streamId member with isPersisted | ⟨otherId, other, isOther, isHeld⟩
    · exact .inl isPersisted
    · by_cases same : segmentId = otherId
      · subst same
        cases found.symm.trans isOther
        exact .inl (persisted streamId isHeld)
      · exact .inr ⟨otherId, other, (Maps.getElem?_erase_of_ne same).trans isOther, isHeld⟩
  · obtain ⟨below, holds⟩ := balanced.last streamId otherId isLast
    exact ⟨below, fun other isOther => holds other (old otherId other isOther)⟩
  · have before := balanced.reclaimable
    have summed := @segmentSum_erase Segment.reclaimableLen _ _ _ _ inside found
    have len : segment.reclaimableLen = segment.fileLen := if_pos isReclaimable
    show reclaimable = segmentSum Segment.reclaimableLen (view.segments.erase segmentId)
      view.nextSegmentId
    omega

section

variable (balanced : view.Balanced) (paid : actual + view.control = view.actual + control)
  (bounded : actual ≤ wordMax)

include balanced paid bounded

/-- New control files that have room for the high-waters persisted then. -/
theorem recount (persisting : Persisting view.streams streams fresh)
    (backed : ∀ streamId ∈ fresh, (view.streams.entry streamId).highwater.isSome = true)
    (persisted : ∀ ids : List StreamId, ids.Nodup → (∀ streamId ∈ ids, streams.persists streamId) →
      checkpointBytes ids.length + manifestLogHeaderLen ≤ control) :
    ({ view with control := control, actual := actual, streams := streams } : BookView).Balanced where
  books := by
    have books := balanced.books
    show rootSuperblockLen + control + segmentSum Segment.fileLen view.segments view.nextSegmentId =
      actual
    omega
  bounded := bounded
  persisted := persisted
  known streamId member := (balanced.known streamId (persisting.known streamId member)).imp_left
    fun isPersisted => persisting.keeps streamId (.inl isPersisted)
  backed streamId isPersisted := by
    rw [persisting.highwater]
    exact (persisting.new streamId isPersisted).elim (balanced.backed streamId) (backed streamId)
  long := balanced.long
  last streamId segmentId isLast := balanced.last streamId segmentId (by
    rw [← persisting.last]
    exact isLast)
  ends activeId segment isActive found streamId member :=
    (persisting.last streamId).trans (balanced.ends activeId segment isActive found streamId member)
  unique := balanced.unique
  reclaimable := balanced.reclaimable

/-- The control files grow, and the count with them. -/
theorem onManifest (grows : view.control ≤ control) :
    ({ view with control := control, actual := actual } : BookView).Balanced :=
  balanced.recount paid bounded (.refl _) nofun fun ids distinct persisted =>
    (balanced.persisted ids distinct persisted).trans grows

/-- High-waters of some streams are persisted, each by an entry of the control files. -/
theorem persist (persisting : Persisting view.streams streams fresh)
    (backed : ∀ streamId ∈ fresh, (view.streams.entry streamId).highwater.isSome = true)
    (room : view.control + 16 * fresh.length ≤ control) :
    ({ view with control := control, actual := actual, streams := streams } : BookView).Balanced := by
  classical
  refine balanced.recount paid bounded persisting backed fun ids distinct persisted => ?_
  have old := balanced.persisted (ids.filter fun streamId => view.streams.persists streamId)
    (distinct.filter _) fun streamId member => of_decide_eq_true (List.mem_filter.mp member).2
  have added : (ids.filter fun streamId => !decide (view.streams.persists streamId)).length ≤
      fresh.length := by
    refine (distinct.filter _).length_le_of_subset fun streamId member => ?_
    obtain ⟨isMember, isNew⟩ := List.mem_filter.mp member
    rcases persisting.new streamId (persisted streamId isMember) with isOld | isFresh
    · simp [isOld] at isNew
    · exact isFresh
  have all := List.length_eq_length_filter_add (l := ids)
    fun streamId => decide (view.streams.persists streamId)
  unfold checkpointBytes at old ⊢
  omega

/-- The control files are replaced by a checkpoint of all high-waters. -/
theorem compact (persisting : Persisting view.streams streams fresh)
    (all : ∀ streamId, streamId ∈ fresh ↔ (view.streams.entry streamId).highwater.isSome = true)
    (room : checkpointBytes fresh.length + manifestLogHeaderLen ≤ control) :
    ({ view with control := control, actual := actual, streams := streams } : BookView).Balanced := by
  refine balanced.recount paid bounded persisting (fun streamId => (all streamId).mp)
    fun ids distinct persisted => ?_
  have counted : ids.length ≤ fresh.length := distinct.length_le_of_subset fun streamId member =>
    (persisting.new streamId (persisted streamId member)).elim
      (fun old => (all streamId).mpr (balanced.backed streamId old)) id
  unfold checkpointBytes at room ⊢
  omega

end

end BookView.Balanced

end Camus
