/-
**What rebuilding the indexes finds.**

`rebuildIndexes` checks much more than it computes. Whenever it accepts, what it returns is
determined by the segments and the control state:

* `Replayed` — the replay has located every record, and every high-water comes from the checkpoint, a
  record or a removal frame.
* `flagged_all` — the releases of the log are added to the flags of the records.
* `IndexedBy` — the pending records of every stream are the places of its unreleased records, and its
  high-water is the greatest sequence there is evidence for.
-/

import Camus.Storage.SegmentSpec
import Camus.Storage.Recovery

namespace Camus

open Codec Checked Disk FaultIo Result Std

variable {path : Artifact} {before after : List StoredRecord}
  {segmentId ordinal baseline sequence : Nat} {done later : Nat → Nat → Prop} {named : Nat → Prop}
  {replay : Replay} {removed : ExtTreeMap Nat SegmentRemovedBody} {record : StoredRecord}
  {streamId : StreamId} {ids : StreamId → Nat → Prop} {streams final : StreamMap}

/-- A release names a record. -/
def ReleaseBody.covers (body : ReleaseBody) (streamId : StreamId) (sequence : Nat) : Bool :=
  body.streamId = streamId &&
    body.ranges.any fun range => range.start ≤ sequence && sequence < range.start + range.len

/-! ### Places -/

/-- A record of a segment in memory. -/
def Placed (segments : SegmentMap) (segmentId ordinal : Nat) (record : StoredRecord) : Prop :=
  ∃ segment, segments[segmentId]? = some segment ∧ segment.records[ordinal]? = some record

theorem Placed.unique {segments : SegmentMap} {left right : StoredRecord}
    (isLeft : Placed segments segmentId ordinal left)
    (isRight : Placed segments segmentId ordinal right) : left = right := by
  obtain ⟨segment, found, place⟩ := isLeft
  obtain ⟨other, lookup, otherPlace⟩ := isRight
  cases found.symm.trans lookup
  exact Option.some.inj (place.symm.trans otherPlace)

theorem StreamMap.entry_insert (streams : StreamMap) (streamId other : StreamId)
    (state : StreamState) :
    StreamMap.entry (streams.insert streamId state) other =
      if streamId = other then state else streams.entry other := by
  unfold StreamMap.entry
  rw [ExtTreeMap.getElem?_insert]
  by_cases same : streamId = other
  · simp [same]
  · simp [same]

/-! ### The replay -/

section Replay

variable {segments : SegmentMap} {highwaters : Highwaters} {control : Control}

/-- Where the replay may have found a high-water. -/
def Evidence (segments : SegmentMap) (highwaters : Highwaters) (control : Control)
    (streamId : StreamId) (sequence : Nat) : Prop :=
  highwaters[streamId]? = some sequence ∨
  (∃ segmentId ordinal record, Placed segments segmentId ordinal record ∧
    record.streamId = streamId ∧ record.sequence = sequence) ∨
  ∃ (segmentId : Nat) (body : SegmentRemovedBody),
    control.removedSegments[segmentId]? = some body ∧
      (⟨streamId, sequence⟩ : StreamHighwater) ∈ body.highwaters

/-- What persisted a high-water: the checkpoint or a removal frame. -/
def Persisted (highwaters : Highwaters) (control : Control) (streamId : StreamId)
    (sequence : Nat) : Prop :=
  highwaters[streamId]? = some sequence ∨
  ∃ (segmentId : Nat) (body : SegmentRemovedBody),
    control.removedSegments[segmentId]? = some body ∧
      (⟨streamId, sequence⟩ : StreamHighwater) ∈ body.highwaters

/-- **The replay of some records.** -/
structure Replayed (segments : SegmentMap) (highwaters : Highwaters)
    (control : Control) (done : Nat → Nat → Prop) (replay : Replay) : Prop where
  located : ∀ segmentId ordinal record, done segmentId ordinal →
    Placed segments segmentId ordinal record →
      replay.locations[((record.streamId, record.sequence) : Identity)]? = some ⟨segmentId, ordinal⟩
  place : ∀ (streamId : StreamId) (sequence : Nat) (pointer : RecordPointer),
    replay.locations[((streamId, sequence) : Identity)]? = some pointer →
      ∃ record, Placed segments pointer.segmentId pointer.ordinal record ∧
        record.streamId = streamId ∧ record.sequence = sequence
  evidence : ∀ streamId highwater, (replay.streams.entry streamId).highwater = some highwater →
    Evidence segments highwaters control streamId highwater
  persisted : ∀ streamId highwater,
    (replay.streams.entry streamId).persistedHighwater = some highwater →
      Persisted highwaters control streamId highwater
  pending : ∀ streamId, (replay.streams.entry streamId).pending = ∅
  unpaid : ∀ streamId, (replay.streams.entry streamId).pendingPayloadBytes = 0
  last : ∀ streamId segmentId, (replay.streams.entry streamId).lastSegmentId = some segmentId →
    ∃ ordinal record, Placed segments segmentId ordinal record ∧ record.streamId = streamId
  lasting : ∀ segmentId ordinal record, done segmentId ordinal →
    Placed segments segmentId ordinal record →
      ∃ later, (replay.streams.entry record.streamId).lastSegmentId = some later ∧
        segmentId ≤ later

theorem checkpointStreams_entry (streamId : StreamId) :
    StreamMap.entry (checkpointStreams highwaters) streamId =
      (highwaters[streamId]?.map fun highwater =>
        { StreamState.default with
          highwater := some highwater, persistedHighwater := some highwater }).getD .default := by
  simp only [StreamMap.entry, checkpointStreams, ExtTreeMap.getElem?_map]

theorem replayed_start :
    Replayed segments highwaters control (fun _ _ => False)
      ⟨checkpointStreams highwaters, ∅, ∅⟩ where
  located _ _ _ never := never.elim
  place streamId sequence pointer found := by simp at found
  evidence streamId highwater found := by
    simp only [checkpointStreams_entry] at found
    cases lookup : highwaters[streamId]? with
    | none => simp [lookup, StreamState.default] at found
    | some value =>
      simp only [lookup, Option.map_some, Option.getD_some, Option.some.injEq] at found
      exact .inl (by rw [lookup, found])
  persisted streamId highwater found := by
    simp only [checkpointStreams_entry] at found
    cases lookup : highwaters[streamId]? with
    | none => simp [lookup, StreamState.default] at found
    | some value =>
      simp only [lookup, Option.map_some, Option.getD_some, Option.some.injEq] at found
      exact .inl (by rw [lookup, found])
  pending streamId := by
    simp only [checkpointStreams_entry]
    cases highwaters[streamId]? <;> rfl
  unpaid streamId := by
    simp only [checkpointStreams_entry]
    cases highwaters[streamId]? <;> rfl
  last streamId segmentId found := by
    simp only [checkpointStreams_entry] at found
    cases lookup : highwaters[streamId]? <;> simp [lookup, StreamState.default] at found
  lasting _ _ _ never := never.elim

/-- What a check of a record does to the replay: at most it raises the high-water of the stream to
the record. -/
theorem checkRecord_eq_ok {inBaseline : Bool} {next : Replay}
    (checked : checkRecord path inBaseline record replay = .ok next) :
    next.locations = replay.locations ∧ ∀ streamId, next.streams.entry streamId =
      if record.streamId = streamId ∧ inBaseline = false
      then { replay.streams.entry streamId with highwater := some record.sequence }
      else replay.streams.entry streamId := by
  unfold checkRecord at checked
  cases inBaseline with
  | true =>
    rw [if_pos rfl] at checked
    simp only [checkBaselineRecord, bind_eq_ok, pure_eq_ok] at checked
    obtain ⟨_, -, _, -, _, -, rfl⟩ := checked
    exact ⟨rfl, fun streamId => by simp⟩
  | false =>
    rw [if_neg (by simp)] at checked
    simp only [advanceRecoveredSequence, bind_eq_ok, pure_eq_ok] at checked
    obtain ⟨_, ⟨_, -, _, -, rfl⟩, rfl⟩ := checked
    refine ⟨rfl, fun streamId => ?_⟩
    rw [StreamMap.entry_insert]
    by_cases same : record.streamId = streamId
    · simp [same]
    · simp [same]

/-- What the replay of a record does. -/
theorem replayRecord_eq_ok {next : Replay}
    (replayed : replayRecord segmentId path baseline replay (record, ordinal) = .ok next) :
    ((record.streamId, record.sequence) : Identity) ∉ replay.locations ∧
    next.locations = replay.locations.insert (record.streamId, record.sequence)
      ⟨segmentId, ordinal⟩ ∧
    ∀ streamId, next.streams.entry streamId =
      if record.streamId = streamId then
        { replay.streams.entry streamId with
          highwater := if ordinal < baseline then (replay.streams.entry streamId).highwater
            else some record.sequence
          lastSegmentId := some segmentId }
      else replay.streams.entry streamId := by
  simp only [replayRecord, bind_eq_ok, pure_eq_ok, ensure_eq_ok] at replayed
  obtain ⟨_, fresh, checked, isChecked, rfl⟩ := replayed
  obtain ⟨locations, streams⟩ := checkRecord_eq_ok isChecked
  refine ⟨fun member => ?_, locations, fun streamId => ?_⟩
  · rw [ExtTreeMap.mem_iff_contains] at member
    simp [member] at fresh
  rw [StreamMap.entry_insert]
  by_cases same : record.streamId = streamId
  · subst same
    rw [if_pos rfl, if_pos rfl, streams]
    by_cases early : ordinal < baseline
    · simp [early]
    · simp [early]
  · rw [if_neg same, if_neg same, streams]
    simp [same]

theorem Replayed.replayRecord {next : Replay}
    (before : Replayed segments highwaters control done replay)
    (order : ∀ other index, done other index → other ≤ segmentId)
    (placed : Placed segments segmentId ordinal record)
    (replayed : Camus.replayRecord segmentId path baseline replay (record, ordinal) = .ok next) :
    Replayed segments highwaters control
      (fun other index => done other index ∨ other = segmentId ∧ index = ordinal) next := by
  obtain ⟨fresh, locations, streams⟩ := replayRecord_eq_ok replayed
  have located : ∀ other index (stored : StoredRecord), done other index →
      Placed segments other index stored →
      ((record.streamId, record.sequence) : Identity) ≠ (stored.streamId, stored.sequence) := by
    intro other index stored isDone isPlaced same
    rw [same] at fresh
    exact fresh (Maps.mem_iff_found.mpr ⟨_, before.located other index stored isDone isPlaced⟩)
  constructor
  · rintro other index stored (earlier | ⟨rfl, rfl⟩) isPlaced
    · rw [locations, ExtTreeMap.getElem?_insert,
        if_neg (by simpa using located other index stored earlier isPlaced)]
      exact before.located other index stored earlier isPlaced
    · rw [isPlaced.unique placed, locations]
      simp
  · intro streamId sequence pointer found
    rw [locations] at found
    obtain ⟨equal, rfl⟩ | ⟨-, found⟩ := Maps.getElem?_insert_eq_some.mp found
    · exact ⟨record, placed, congrArg Prod.fst equal, congrArg Prod.snd equal⟩
    · exact before.place streamId sequence pointer found
  · intro streamId highwater found
    rw [streams] at found
    split at found
    · rename_i same
      simp only at found
      split at found
      · exact before.evidence streamId highwater found
      · exact .inr (.inl ⟨segmentId, ordinal, record, placed, same, Option.some.inj found⟩)
    · exact before.evidence streamId highwater found
  · intro streamId highwater found
    rw [streams] at found
    split at found <;> exact before.persisted streamId highwater found
  · intro streamId
    rw [streams]
    split <;> exact before.pending streamId
  · intro streamId
    rw [streams]
    split <;> exact before.unpaid streamId
  · intro streamId found isLast
    rw [streams] at isLast
    split at isLast
    · rename_i same
      cases isLast
      exact ⟨ordinal, record, placed, same⟩
    · exact before.last streamId found isLast
  · rintro other index stored (earlier | ⟨rfl, rfl⟩) isPlaced
    · rw [streams]
      split
      · exact ⟨segmentId, rfl, order other index earlier⟩
      · exact before.lasting other index stored earlier isPlaced
    · rw [isPlaced.unique placed, streams, if_pos rfl]
      exact ⟨other, rfl, Nat.le_refl _⟩

theorem Replayed.congr (before : Replayed segments highwaters control done replay)
    (same : ∀ segmentId ordinal record, Placed segments segmentId ordinal record →
      later segmentId ordinal → done segmentId ordinal) :
    Replayed segments highwaters control later replay :=
  { before with
    located := fun segmentId ordinal record isDone placed =>
      before.located segmentId ordinal record (same segmentId ordinal record placed isDone) placed
    lasting := fun segmentId ordinal record isDone placed =>
      before.lasting segmentId ordinal record (same segmentId ordinal record placed isDone) placed }

/-- The replay of the records of a segment. -/
theorem Replayed.replayLive {next : Replay}
    (before : Replayed segments highwaters control done replay)
    (order : ∀ other index, done other index → other ≤ segmentId)
    (replayed : Camus.replayLive control.liveSegments segmentId replay segments[segmentId]? =
      .ok next) :
    Replayed segments highwaters control
      (fun other index => done other index ∨ other = segmentId) next := by
  cases found : segments[segmentId]? with
  | none =>
    rw [found] at replayed
    cases replayed
    refine before.congr ?_
    rintro other index record ⟨segment, lookup, -⟩ (isDone | rfl)
    · exact isDone
    · rw [found] at lookup
      cases lookup
  | some segment =>
    rw [found] at replayed
    have folded := tryFold_induction_done
      (fun processed total => Replayed segments highwaters control
        (fun other index => done other index ∨ other = segmentId ∧ index < processed.length) total)
      (before.congr fun _ _ _ _ => by simp) ?_ replayed
    · refine folded.congr ?_
      rintro other index record ⟨holder, lookup, isRecord⟩ (isDone | rfl)
      · exact .inl isDone
      · rw [found] at lookup
        cases lookup
        refine .inr ⟨rfl, ?_⟩
        rw [List.length_zipIdx]
        exact (List.getElem?_eq_some_iff.mp isRecord).1
    · rintro processed ⟨record, ordinal⟩ rest total later whole kept stepped
      have entry : segment.records.zipIdx[processed.length]? = some (record, ordinal) := by
        rw [whole, List.getElem?_append_right (Nat.le_refl _), Nat.sub_self]
        rfl
      rw [List.getElem?_zipIdx, Option.map_eq_some_iff] at entry
      obtain ⟨stored, isStored, same⟩ := entry
      obtain ⟨rfl, rfl⟩ := Prod.mk.inj same
      rw [Nat.zero_add] at stepped
      refine (kept.replayRecord ?_ ⟨segment, found, isStored⟩ stepped).congr ?_
      · rintro other index (isDone | ⟨rfl, -⟩)
        · exact order other index isDone
        · exact Nat.le_refl _
      · rintro other index _ - (isDone | ⟨rfl, bound⟩)
        · exact .inl (.inl isDone)
        · rw [List.length_append, List.length_singleton] at bound
          rcases Nat.lt_succ_iff_lt_or_eq.mp bound with earlier | here
          · exact .inl (.inr ⟨rfl, earlier⟩)
          · exact .inr ⟨rfl, here⟩

/-- What one removed high-water does to the streams. -/
theorem replayHighwater_eq_ok {next : StreamMap} {highwater : StreamHighwater}
    (replayed : replayHighwater streams highwater = .ok next) (streamId : StreamId) :
    next.entry streamId = if highwater.streamId = streamId
      then { streams.entry streamId with
        highwater := some highwater.sequence, persistedHighwater := some highwater.sequence }
      else streams.entry streamId := by
  simp only [replayHighwater, bind_eq_ok, pure_eq_ok] at replayed
  obtain ⟨_, -, rfl⟩ := replayed
  rw [StreamMap.entry_insert]
  by_cases same : highwater.streamId = streamId
  · subst same
    simp
  · simp [same]

/-- The replay of a removed segment. -/
theorem Replayed.replayRemoved {next : Replay}
    (before : Replayed segments highwaters control done replay)
    (replayed : Camus.replayRemoved replay control.removedSegments[segmentId]? = .ok next) :
    Replayed segments highwaters control done next := by
  cases found : control.removedSegments[segmentId]? with
  | none =>
    rw [found] at replayed
    cases replayed
    exact before
  | some body =>
    rw [found] at replayed
    simp only [Camus.replayRemoved, bind_eq_ok, pure_eq_ok] at replayed
    obtain ⟨streams, folded, rfl⟩ := replayed
    refine tryFold_induction (fun streams =>
      Replayed segments highwaters control done { replay with streams := streams }) before ?_ folded
    intro total highwater later member kept stepped
    have entries := replayHighwater_eq_ok stepped
    refine
      { located := kept.located
        place := kept.place
        evidence := fun streamId value isHighwater => ?_
        persisted := fun streamId value isPersisted => ?_
        pending := fun streamId => ?_
        unpaid := fun streamId => ?_
        last := fun streamId segmentId isLast => ?_
        lasting := fun other index record isDone placed => ?_ }
    · simp only [entries] at isHighwater
      split at isHighwater
      · rename_i same
        obtain rfl := Option.some.inj isHighwater
        exact .inr (.inr ⟨segmentId, body, found, by rw [← same]; exact member⟩)
      · exact kept.evidence streamId value isHighwater
    · simp only [entries] at isPersisted
      split at isPersisted
      · rename_i same
        obtain rfl := Option.some.inj isPersisted
        exact .inr ⟨segmentId, body, found, by rw [← same]; exact member⟩
      · exact kept.persisted streamId value isPersisted
    · simp only [entries]
      split <;> exact kept.pending streamId
    · simp only [entries]
      split <;> exact kept.unpaid streamId
    · simp only [entries] at isLast
      split at isLast <;> exact kept.last streamId segmentId isLast
    · simp only [entries]
      split <;> exact kept.lasting other index record isDone placed

theorem mem_allSegmentIds :
    segmentId ∈ allSegmentIds segments removed ↔ segmentId ∈ segments ∨ segmentId ∈ removed := by
  unfold allSegmentIds
  rw [ExtTreeSet.mem_toList, ExtTreeSet.mem_ofList, List.contains_iff_mem, List.mem_append,
    ExtTreeMap.mem_keys, ExtTreeMap.mem_keys]

theorem allSegmentIds_sorted {removed : ExtTreeMap Nat SegmentRemovedBody} :
    (allSegmentIds segments removed).Pairwise (· < ·) :=
  ExtTreeSet.ordered_toList.imp fun ordered => Nat.compare_eq_lt.mp ordered

/-- **The replay of all segments.** -/
theorem replayed_all
    (folded : tryFold (replaySegment segments control.liveSegments control.removedSegments)
      ⟨checkpointStreams highwaters, ∅, ∅⟩ (allSegmentIds segments control.removedSegments) =
        .ok replay) : Replayed segments highwaters control (fun _ _ => True) replay := by
  have all := tryFold_induction_done
    (fun processed total => Replayed segments highwaters control
      (fun segmentId _ => segmentId ∈ processed) total)
    (replayed_start.congr fun _ _ _ _ never => by cases never) ?_ folded
  · refine all.congr ?_
    rintro segmentId ordinal record ⟨segment, found, -⟩ -
    exact mem_allSegmentIds.mpr (.inl (Maps.mem_iff_found.mpr ⟨_, found⟩))
  · intro processed segmentId rest total next whole kept stepped
    simp only [replaySegment, bind_eq_ok] at stepped
    obtain ⟨live, isLive, isRemoved⟩ := stepped
    have sorted := @allSegmentIds_sorted segments control.removedSegments
    rw [whole, List.pairwise_append] at sorted
    refine ((kept.replayLive ?_ isLive).replayRemoved isRemoved).congr ?_
    · intro other _ member
      exact Nat.le_of_lt (sorted.2.2 other member segmentId List.mem_cons_self)
    · intro other _ _ _ member
      rcases List.mem_append.mp member with earlier | here
      · exact .inl earlier
      · exact .inr (List.mem_singleton.mp here)

end Replay

/-! ### The releases of the log -/

/-- The same records, and released are those that were and the named ones. -/
structure FlaggedRecords (named : Nat → Prop) (before after : List StoredRecord) : Prop where
  length : after.length = before.length
  record : ∀ (ordinal : Nat) (stored : StoredRecord), before[ordinal]? = some stored →
    ∃ marked : StoredRecord, after[ordinal]? = some marked ∧
      marked = { stored with released := marked.released } ∧
      (marked.released = true ↔ stored.released = true ∨ named ordinal)

/-- The same segments, and released are the records that were and the named ones. -/
def Flagged (segments : SegmentMap) (named : Nat → Nat → Prop) (final : SegmentMap) : Prop :=
  ∀ segmentId : Nat, match segments[segmentId]? with
    | none => final[segmentId]? = none
    | some segment => ∃ marked : Segment, final[segmentId]? = some marked ∧
        marked = { segment with records := marked.records } ∧
        FlaggedRecords (named segmentId) segment.records marked.records

theorem FlaggedRecords.refl (records : List StoredRecord) :
    FlaggedRecords (fun _ => False) records records :=
  ⟨rfl, fun _ stored found => ⟨stored, found, rfl, by simp⟩⟩

theorem Flagged.refl (segments : SegmentMap) : Flagged segments (fun _ _ => False) segments := by
  intro segmentId
  cases found : segments[segmentId]? with
  | none => rfl
  | some segment => exact ⟨segment, rfl, rfl, FlaggedRecords.refl _⟩

theorem FlaggedRecords.congr {other : Nat → Prop} (flagged : FlaggedRecords named before after)
    (same : ∀ ordinal, named ordinal ↔ other ordinal) : FlaggedRecords other before after :=
  ⟨flagged.length, fun ordinal stored found => by
    obtain ⟨marked, isMarked, shape, released⟩ := flagged.record ordinal stored found
    exact ⟨marked, isMarked, shape, by rw [released, same]⟩⟩

theorem Flagged.congr {segments final : SegmentMap} {named other : Nat → Nat → Prop}
    (flagged : Flagged segments named final)
    (same : ∀ segmentId ordinal, named segmentId ordinal ↔ other segmentId ordinal) :
    Flagged segments other final := by
  intro segmentId
  have shape := flagged segmentId
  cases found : segments[segmentId]? with
  | none =>
    rw [found] at shape
    exact shape
  | some segment =>
    rw [found] at shape
    obtain ⟨marked, isMarked, kept, records⟩ := shape
    exact ⟨marked, isMarked, kept, records.congr (same segmentId)⟩

theorem FlaggedRecords.modify (flagged : FlaggedRecords named before after) (chosen : Nat) :
    FlaggedRecords (fun ordinal => named ordinal ∨ ordinal = chosen) before
      (after.modify chosen fun record => { record with released := true }) where
  length := by rw [List.length_modify, flagged.length]
  record ordinal stored found := by
    obtain ⟨marked, isMarked, shape, released⟩ := flagged.record ordinal stored found
    rw [List.getElem?_modify]
    by_cases here : chosen = ordinal
    · refine ⟨{ marked with released := true }, by simp [here, isMarked], ?_, by simp [here]⟩
      rw [shape]
    · refine ⟨marked, by simp [here, isMarked], shape, ?_⟩
      have elsewhere : ¬ ordinal = chosen := fun same => here same.symm
      simp [released, elsewhere]

/-- Marking one record. -/
theorem Flagged.markReleased {segments total next : SegmentMap} {named : Nat → Nat → Prop}
    (flagged : Flagged segments named total) {pointer : RecordPointer}
    (stepped : markReleased total pointer = .ok next) :
    Flagged segments (fun segmentId ordinal => named segmentId ordinal ∨
      segmentId = pointer.segmentId ∧ ordinal = pointer.ordinal) next := by
  simp only [Camus.markReleased, bind_eq_ok, orError_eq_ok, pure_eq_ok]
    at stepped
  obtain ⟨segment, holder, _, -, rfl⟩ := stepped
  intro segmentId
  have shape := flagged segmentId
  by_cases here : pointer.segmentId = segmentId
  · subst here
    cases found : segments[pointer.segmentId]? with
    | none =>
      rw [found, holder] at shape
      cases shape
    | some original =>
      rw [found, holder] at shape
      obtain ⟨_, same, kept, records⟩ := shape
      cases same
      refine ⟨_, ExtTreeMap.getElem?_insert_self, ?_, ?_⟩
      · conv_lhs => rw [kept]
      · exact (records.modify pointer.ordinal).congr fun ordinal => by simp
  · have elsewhere : ¬ segmentId = pointer.segmentId := fun same => here same.symm
    have lookup : (total.insert pointer.segmentId { segment with
        records := segment.records.modify pointer.ordinal fun record =>
          { record with released := true } })[segmentId]? = total[segmentId]? := by
      simp [ExtTreeMap.getElem?_insert, here]
    rw [lookup]
    cases found : segments[segmentId]? with
    | none =>
      rw [found] at shape
      exact shape
    | some original =>
      rw [found] at shape
      obtain ⟨marked, isMarked, kept, records⟩ := shape
      exact ⟨marked, isMarked, kept, records.congr fun ordinal => by simp [elsewhere]⟩

section Releases

variable {locations : ExtTreeMap Identity RecordPointer} {segments total next : SegmentMap}

/-- The records whose identity is among some. -/
def Named (locations : ExtTreeMap Identity RecordPointer) (ids : StreamId → Nat → Prop)
    (segmentId ordinal : Nat) : Prop :=
  ∃ streamId sequence, ids streamId sequence ∧
    locations[((streamId, sequence) : Identity)]? = some ⟨segmentId, ordinal⟩

theorem unflagged (segments : SegmentMap) (locations : ExtTreeMap Identity RecordPointer) :
    Flagged segments (Named locations fun _ _ => False) segments :=
  (Flagged.refl segments).congr fun segmentId ordinal => by simp [Named]

theorem Flagged.releaseSequence (flagged : Flagged segments (Named locations ids) total)
    (stepped : releaseSequence locations streamId total sequence = .ok next) :
    Flagged segments (Named locations fun other value =>
      ids other value ∨ other = streamId ∧ value = sequence) next := by
  unfold Camus.releaseSequence at stepped
  cases found : locations[((streamId, sequence) : Identity)]? with
  | none =>
    rw [found] at stepped
    cases stepped
    refine flagged.congr fun segmentId ordinal => ⟨?_, ?_⟩
    · rintro ⟨other, value, isNamed, lookup⟩
      exact ⟨other, value, .inl isNamed, lookup⟩
    · rintro ⟨other, value, isNamed | ⟨rfl, rfl⟩, lookup⟩
      · exact ⟨other, value, isNamed, lookup⟩
      · rw [found] at lookup
        cases lookup
  | some pointer =>
    rw [found] at stepped
    refine (flagged.markReleased stepped).congr fun segmentId ordinal => ⟨?_, ?_⟩
    · rintro (⟨other, value, isNamed, lookup⟩ | ⟨rfl, rfl⟩)
      · exact ⟨other, value, .inl isNamed, lookup⟩
      · exact ⟨streamId, sequence, .inr ⟨rfl, rfl⟩, found⟩
    · rintro ⟨other, value, isNamed | ⟨rfl, rfl⟩, lookup⟩
      · exact .inl ⟨other, value, isNamed, lookup⟩
      · rw [found] at lookup
        cases lookup
        exact .inr ⟨rfl, rfl⟩

theorem Flagged.releaseRange {highwater : Nat} {range : SequenceRange}
    (flagged : Flagged segments (Named locations ids) total)
    (stepped : releaseRange locations streamId highwater total range = .ok next) :
    Flagged segments (Named locations fun other value =>
      ids other value ∨ other = streamId ∧ range.Contains value) next := by
  simp only [Camus.releaseRange, malformed, bind_eq_ok, mapError_eq_ok] at stepped
  obtain ⟨finish, ends, _, -, folded⟩ := stepped
  obtain ⟨nonzero, rfl, -⟩ := SequenceRange.finish_eq_ok.mp ends
  have all := tryFold_induction_done
    (fun processed current => Flagged segments (Named locations fun other value =>
      ids other value ∨ other = streamId ∧ value ∈ processed) current)
    (flagged.congr fun segmentId ordinal => by simp [Named]) ?_ folded
  · refine all.congr fun segmentId ordinal => ?_
    have same : ∀ value, value ∈ List.range' range.start
        (range.start + (range.len - 1) + 1 - range.start) ↔ range.Contains value := by
      intro value
      rw [List.mem_range'_1]
      unfold SequenceRange.Contains
      omega
    simp only [Named, same]
  · intro processed sequence rest current later _ kept one
    refine (kept.releaseSequence one).congr fun segmentId ordinal => ?_
    simp only [Named, List.mem_append, List.mem_singleton, and_or_left, or_assoc]

theorem covers_iff {body : ReleaseBody} :
    body.covers streamId sequence = true ↔
      streamId = body.streamId ∧ ∃ range ∈ body.ranges, range.Contains sequence := by
  simp only [ReleaseBody.covers, SequenceRange.Contains, Bool.and_eq_true, decide_eq_true_eq,
    List.any_eq_true]
  rw [@eq_comm _ streamId]

theorem Flagged.applyRelease {body : ReleaseBody}
    (flagged : Flagged segments (Named locations ids) total)
    (stepped : applyRelease streams locations total body = .ok next) :
    Flagged segments (Named locations fun other value =>
      ids other value ∨ body.covers other value = true) next := by
  simp only [Camus.applyRelease, bind_eq_ok] at stepped
  obtain ⟨highwater, -, folded⟩ := stepped
  have all := tryFold_induction_done
    (fun processed current => Flagged segments (Named locations fun other value =>
      ids other value ∨ other = body.streamId ∧ ∃ range ∈ processed, range.Contains value) current)
    (flagged.congr fun segmentId ordinal => by simp [Named]) ?_ folded
  · refine all.congr fun segmentId ordinal => ?_
    simp only [Named, covers_iff]
  · intro processed range rest current later _ kept one
    refine (kept.releaseRange one).congr fun segmentId ordinal => ?_
    simp only [Named, List.mem_append, List.mem_singleton, or_and_right, exists_or, exists_eq_left,
      and_or_left, or_assoc]

/-- **The releases of the log.** -/
theorem flagged_all {releases : List ReleaseBody}
    (folded : tryFold (applyRelease streams locations) segments releases = .ok next) :
    Flagged segments (Named locations fun streamId sequence =>
      ∃ body ∈ releases, body.covers streamId sequence = true) next := by
  have all := tryFold_induction_done
    (fun processed current => Flagged segments (Named locations fun other value =>
      ∃ body ∈ processed, body.covers other value = true) current)
    (by simpa using unflagged segments locations) ?_ folded
  · exact all
  · intro processed body rest current later _ kept one
    refine (kept.applyRelease one).congr fun segmentId ordinal => ?_
    simp only [Named, List.mem_append, List.mem_singleton, or_and_right, exists_or, exists_eq_left]

end Releases

/-! ### The pending records -/

section Index

variable {segments : SegmentMap} {start : StreamMap}

/-- **The index of some records.** -/
structure IndexedBy (segments : SegmentMap) (start : StreamMap) (done : Nat → Nat → Prop)
    (streams : StreamMap) : Prop where
  highwater : ∀ streamId, (streams.entry streamId).highwater = (start.entry streamId).highwater
  persisted : ∀ streamId,
    (streams.entry streamId).persistedHighwater = (start.entry streamId).persistedHighwater
  last : ∀ streamId, (streams.entry streamId).lastSegmentId = (start.entry streamId).lastSegmentId
  place : ∀ (streamId : StreamId) (sequence : Nat) (pointer : RecordPointer),
    (streams.entry streamId).pending[sequence]? = some pointer →
      ∃ record, Placed segments pointer.segmentId pointer.ordinal record ∧
        record.streamId = streamId ∧ record.sequence = sequence ∧ record.released = false
  pending : ∀ segmentId ordinal record, done segmentId ordinal →
    Placed segments segmentId ordinal record → record.released = false →
      (streams.entry record.streamId).pending[record.sequence]? = some ⟨segmentId, ordinal⟩
  below : ∀ segmentId ordinal record, done segmentId ordinal →
    Placed segments segmentId ordinal record →
      ∃ highwater, (start.entry record.streamId).highwater = some highwater ∧
        record.sequence ≤ highwater

theorem indexedBy_start (empty : ∀ streamId, (start.entry streamId).pending = ∅) :
    IndexedBy segments start (fun _ _ => False) start where
  highwater _ := rfl
  persisted _ := rfl
  last _ := rfl
  place streamId sequence pointer found := by simp [empty] at found
  pending _ _ _ never := never.elim
  below _ _ _ never := never.elim

theorem IndexedBy.congr (before : IndexedBy segments start done streams)
    (same : ∀ segmentId ordinal record, Placed segments segmentId ordinal record →
      later segmentId ordinal → done segmentId ordinal) : IndexedBy segments start later streams :=
  { before with
    pending := fun segmentId ordinal record isDone placed =>
      before.pending segmentId ordinal record (same segmentId ordinal record placed isDone) placed
    below := fun segmentId ordinal record isDone placed =>
      before.below segmentId ordinal record (same segmentId ordinal record placed isDone) placed }

/-- What indexing a record does. -/
theorem indexRecord_eq_ok {next : StreamMap}
    (indexed : indexRecord segmentId path streams (record, ordinal) = .ok next) :
    (∃ highwater, (streams.entry record.streamId).highwater = some highwater ∧
      record.sequence ≤ highwater) ∧
    ∀ streamId, next.entry streamId =
      if record.streamId = streamId ∧ record.released = false then
        { streams.entry streamId with
          pending := (streams.entry streamId).pending.insert record.sequence ⟨segmentId, ordinal⟩
          pendingPayloadBytes := (streams.entry streamId).pendingPayloadBytes + record.payloadLen }
      else streams.entry streamId := by
  simp only [indexRecord, bind_eq_ok, ensure_eq_ok, pure_eq_ok] at indexed
  obtain ⟨_, bounded, state, added, rfl⟩ := indexed
  constructor
  · cases found : (streams.entry record.streamId).highwater with
    | none => simp [found] at bounded
    | some highwater =>
      rw [found] at bounded
      exact ⟨highwater, rfl, by simpa using bounded⟩
  · unfold addPending at added
    cases released : record.released with
    | true =>
      rw [released, if_pos rfl] at added
      cases added
      intro streamId
      rw [StreamMap.entry_insert]
      by_cases same : record.streamId = streamId
      · simp [same]
      · simp [same]
    | false =>
      rw [released, if_neg (by simp)] at added
      simp only [bind_eq_ok, orError_eq_ok, checkedAdd_eq_some,
        pure_eq_ok] at added
      obtain ⟨_, ⟨rfl, -⟩, rfl⟩ := added
      intro streamId
      rw [StreamMap.entry_insert]
      by_cases same : record.streamId = streamId
      · subst same
        simp
      · simp [same]

theorem IndexedBy.indexRecord {next : StreamMap}
    (distinct : ∀ segmentId ordinal record segmentId' ordinal' record',
      Placed segments segmentId ordinal record → Placed segments segmentId' ordinal' record' →
      record.streamId = record'.streamId → record.sequence = record'.sequence →
        segmentId = segmentId' ∧ ordinal = ordinal')
    (before : IndexedBy segments start done streams)
    (placed : Placed segments segmentId ordinal record)
    (indexed : Camus.indexRecord segmentId path streams (record, ordinal) = .ok next) :
    IndexedBy segments start
      (fun other index => done other index ∨ other = segmentId ∧ index = ordinal) next := by
  obtain ⟨bounded, entries⟩ := indexRecord_eq_ok indexed
  constructor
  · intro streamId
    rw [entries]
    split <;> exact before.highwater streamId
  · intro streamId
    rw [entries]
    split <;> exact before.persisted streamId
  · intro streamId
    rw [entries]
    split <;> exact before.last streamId
  · intro streamId sequence pointer found
    rw [entries] at found
    split at found
    · rename_i here
      obtain ⟨rfl, pending⟩ := here
      obtain ⟨same, rfl⟩ | ⟨-, found⟩ := Maps.getElem?_insert_eq_some.mp found
      · exact ⟨record, placed, rfl, same, pending⟩
      · exact before.place _ sequence pointer found
    · exact before.place streamId sequence pointer found
  · rintro other index stored (earlier | ⟨rfl, rfl⟩) isPlaced isPending
    · have kept := before.pending other index stored earlier isPlaced isPending
      rw [entries]
      split
      · rename_i here
        simp only [ExtTreeMap.getElem?_insert]
        split
        · rename_i same
          obtain ⟨rfl, rfl⟩ := distinct _ _ _ _ _ _ placed isPlaced here.1
            (LawfulEqOrd.eq_of_compare same)
          rfl
        · exact kept
      · exact kept
    · obtain rfl := isPlaced.unique placed
      rw [entries, if_pos ⟨rfl, isPending⟩]
      simp
  · rintro other index stored (earlier | ⟨rfl, rfl⟩) isPlaced
    · exact before.below other index stored earlier isPlaced
    · obtain rfl := isPlaced.unique placed
      rw [before.highwater] at bounded
      exact bounded

/-- **Indexing all records.** What each record keeps for the places that were indexed before it holds
in the end for all of them. -/
theorem indexSegments_induction {final : StreamMap}
    (holds : (Nat → Nat → Prop) → StreamMap → Prop)
    (congr : ∀ {done later : Nat → Nat → Prop} {streams : StreamMap}, holds done streams →
      (∀ segmentId ordinal record, Placed segments segmentId ordinal record →
        (later segmentId ordinal ↔ done segmentId ordinal)) → holds later streams)
    (begins : holds (fun _ _ => False) start)
    (step : ∀ {done : Nat → Nat → Prop} {segmentId ordinal : Nat} {path : Artifact}
      {record : StoredRecord} {streams next : StreamMap}, holds done streams →
      Placed segments segmentId ordinal record → ¬ done segmentId ordinal →
      indexRecord segmentId path streams (record, ordinal) = .ok next →
        holds (fun other index => done other index ∨ other = segmentId ∧ index = ordinal) next)
    (folded : tryFold indexSegment start segments.toList = .ok final) :
    holds (fun _ _ => True) final := by
  have all := tryFold_induction_done
    (fun processed total => holds (fun segmentId _ => segmentId ∈ processed.map Prod.fst) total)
    (congr begins fun _ _ _ _ => by simp) ?_ folded
  · refine congr all ?_
    rintro segmentId ordinal record ⟨segment, found, -⟩
    exact iff_of_true trivial (List.mem_map.mpr ⟨(segmentId, segment),
      ExtTreeMap.mem_toList_iff_getElem?_eq_some.mpr found, rfl⟩)
  · rintro processed ⟨segmentId, segment⟩ rest total next whole kept stepped
    have found : segments[segmentId]? = some segment :=
      ExtTreeMap.mem_toList_iff_getElem?_eq_some.mp (by rw [whole]; simp)
    have fresh : segmentId ∉ processed.map Prod.fst := by
      have sorted := Maps.toList_sorted segments
      rw [whole, List.pairwise_append] at sorted
      intro member
      obtain ⟨entry, isEntry, same⟩ := List.mem_map.mp member
      exact absurd same (Nat.ne_of_lt (sorted.2.2 entry isEntry _ List.mem_cons_self))
    have one := tryFold_induction_done
      (fun finished current => holds (fun other index => other ∈ processed.map Prod.fst ∨
        other = segmentId ∧ index < finished.length) current)
      (congr kept fun _ _ _ _ => by simp) ?_ stepped
    · refine congr one ?_
      rintro other index record ⟨holder, lookup, isRecord⟩
      rw [List.map_append, List.mem_append]
      refine or_congr_right ?_
      simp only [List.map_cons, List.map_nil, List.mem_singleton, List.length_zipIdx]
      refine ⟨fun same => ⟨same, ?_⟩, fun both => both.1⟩
      subst same
      cases found.symm.trans lookup
      exact (List.getElem?_eq_some_iff.mp isRecord).1
    · rintro finished ⟨record, ordinal⟩ others current later split before indexed
      have entry : segment.records.zipIdx[finished.length]? = some (record, ordinal) := by
        rw [show segment.records.zipIdx = finished ++ (record, ordinal) :: others from split,
          List.getElem?_append_right (Nat.le_refl _), Nat.sub_self]
        rfl
      rw [List.getElem?_zipIdx, Option.map_eq_some_iff] at entry
      obtain ⟨stored, isStored, same⟩ := entry
      obtain ⟨rfl, rfl⟩ := Prod.mk.inj same
      rw [Nat.zero_add] at indexed
      have notDone : ¬ (segmentId ∈ processed.map Prod.fst ∨
          segmentId = segmentId ∧ finished.length < finished.length) := by
        rintro (earlier | ⟨-, less⟩)
        · exact fresh earlier
        · exact lt_irrefl _ less
      refine congr (step before ⟨segment, found, isStored⟩ notDone indexed) ?_
      rintro other index _ -
      rw [List.length_append, List.length_singleton, Nat.lt_succ_iff_lt_or_eq, and_or_left, or_assoc]

theorem indexedBy_all (distinct : ∀ segmentId ordinal record segmentId' ordinal' record',
      Placed segments segmentId ordinal record → Placed segments segmentId' ordinal' record' →
      record.streamId = record'.streamId → record.sequence = record'.sequence →
        segmentId = segmentId' ∧ ordinal = ordinal')
    (empty : ∀ streamId, (start.entry streamId).pending = ∅)
    (folded : tryFold indexSegment start segments.toList = .ok final) :
    IndexedBy segments start (fun _ _ => True) final :=
  indexSegments_induction (IndexedBy segments start)
    (fun before same => before.congr fun segmentId ordinal record placed =>
      (same segmentId ordinal record placed).mp)
    (indexedBy_start empty)
    (fun before placed _ indexed => before.indexRecord distinct placed indexed) folded

end Index

/-! ### The durable high-waters -/

theorem applyDurableHighwater_eq_ok {next : StreamMap} {persisted : Nat}
    (applied : applyDurableHighwater streams (streamId, persisted) = .ok next) :
    (∃ highwater, (streams.entry streamId).highwater = some highwater ∧ persisted ≤ highwater) ∧
    ∀ other, next.entry other = if streamId = other ∧
        ((streams.entry other).persistedHighwater.all fun current => current < persisted) = true
      then { streams.entry other with persistedHighwater := some persisted }
      else streams.entry other := by
  simp only [applyDurableHighwater, bind_eq_ok, ensure_eq_ok, pure_eq_ok]
    at applied
  obtain ⟨_, bounded, rfl⟩ := applied
  constructor
  · cases found : (streams.entry streamId).highwater with
    | none => simp [found] at bounded
    | some highwater =>
      rw [found] at bounded
      exact ⟨highwater, rfl, by simpa using bounded⟩
  · intro other
    rw [StreamMap.entry_insert]
    by_cases same : streamId = other
    · subst same
      by_cases stale : ((streams.entry streamId).persistedHighwater.all
          fun current => current < persisted) = true
      · simp [stale]
      · simp [stale]
    · simp [same]

end Camus
