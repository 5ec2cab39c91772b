/-
**A release is a set operation.**

* `Releases` — pointwise: the named records leave the pending index and are flagged, and nothing else
  of streams and segments changes. It composes (`Releases.trans`) and depends on the named *pending*
  records only (`Releases.congr`), which is why repetition, order and grouping do not matter.
* `releases_markRecordReleased` — one marked record; `releases_releaseGroup` — a whole group.
* `planReleases_eq_ok` — the plan of a group: one frame for each unit that names a pending record that no
  earlier unit named.
* `release_is_set_operation` — the group, and any two sequences of groups that name the same records.
-/

import Camus.Storage.Aggregates

set_option linter.unusedSectionVars false

namespace Camus

open Codec Checked Disk FaultIo Result Std

variable {identity : Identity} {bodies : List ManifestBody} {sequence file : Nat}
  {streamId : StreamId}

/-- The records that units name. -/
def namedIds (units : List ReleaseUnit) : List Identity :=
  units.flatMap fun unit => unit.ids.map fun id => (unit.streamId, id.sequence)

/-- The record is released if it is named. -/
def StoredRecord.releaseIn (named : List Identity) (record : StoredRecord) : StoredRecord :=
  { record with released := record.released || decide ((record.streamId, record.sequence) ∈ named) }

/-- The named records of a segment are released. -/
def Segment.releaseIn (named : List Identity) (segment : Segment) : Segment :=
  { segment with
    records := segment.records.map (StoredRecord.releaseIn named)
    unreleasedRecords := (segment.records.map (StoredRecord.releaseIn named)).countP
      fun record => !record.released }

/-- What a release never changes of a stream. -/
def StreamState.fixed (stream : StreamState) : Option Nat × Option Nat :=
  (stream.highwater, stream.lastSegmentId)

/-- **The named records are released, and nothing else happens to streams and segments.** -/
structure Releases (storage final : Storage) (named : List Identity) : Prop where
  identity : final.identity = storage.identity
  active : final.activeSegment = storage.activeSegment
  segments : ∀ segmentId : Nat, final.segments[segmentId]? =
    storage.segments[segmentId]?.map (Segment.releaseIn named)
  streams : ∀ streamId : StreamId, final.streams[streamId]?.map StreamState.fixed =
    storage.streams[streamId]?.map StreamState.fixed
  pending : ∀ (streamId : StreamId) (sequence : Nat),
    (StreamMap.entry final.streams streamId).pending[sequence]? =
      if (streamId, sequence) ∈ named then none
      else (StreamMap.entry storage.streams streamId).pending[sequence]?

/-! ### Named records of a segment -/

theorem releaseIn_congr {left right : List Identity} {segment : Segment}
    (same : ∀ record ∈ segment.records, record.released = false →
      ((record.streamId, record.sequence) ∈ left ↔ (record.streamId, record.sequence) ∈ right)) :
    segment.releaseIn left = segment.releaseIn right := by
  have records : segment.records.map (StoredRecord.releaseIn left) =
      segment.records.map (StoredRecord.releaseIn right) := by
    refine List.map_congr_left fun record member => ?_
    cases released : record.released with
    | true => simp [StoredRecord.releaseIn, released]
    | false => simp [StoredRecord.releaseIn, released, same record member released]
  rw [Segment.releaseIn, Segment.releaseIn, records]

theorem releaseIn_nil {segment : Segment}
    (counted : segment.unreleasedRecords = segment.unreleasedCount) : segment.releaseIn [] = segment := by
  have records : segment.records.map (StoredRecord.releaseIn []) = segment.records := by
    refine (List.map_congr_left fun record _ => ?_).trans (List.map_id _)
    simp [StoredRecord.releaseIn]
  rw [Segment.releaseIn, records]
  show { segment with records := segment.records, unreleasedRecords := segment.unreleasedCount } = _
  rw [← counted]

theorem releaseIn_releaseIn (first second : List Identity) (segment : Segment) :
    (segment.releaseIn first).releaseIn second = segment.releaseIn (first ++ second) := by
  have records : (segment.records.map (StoredRecord.releaseIn first)).map
      (StoredRecord.releaseIn second) = segment.records.map (StoredRecord.releaseIn (first ++ second)) := by
    rw [List.map_map]
    refine List.map_congr_left fun record _ => ?_
    refine congrArg (fun released => { record with released := released }) ?_
    have flags : ∀ (released : Bool) (identity : Identity),
        (released || decide (identity ∈ first) || decide (identity ∈ second)) =
          (released || decide (identity ∈ first ++ second)) := by
      intro released identity
      rw [Bool.eq_iff_iff]
      simp [or_assoc]
    exact flags record.released (record.streamId, record.sequence)
  unfold Segment.releaseIn
  rw [records]

/-- The one record of a segment with an identity is released. -/
theorem releaseRecord_eq_releaseIn {segment : Segment} {ordinal count : Nat} {record : StoredRecord}
    (isRecord : segment.records[ordinal]? = some record)
    (only : ∀ (index : Nat) (other : StoredRecord), segment.records[index]? = some other →
      other.streamId = record.streamId → other.sequence = record.sequence → index = ordinal)
    (counted : count = (segment.releaseRecord ordinal count).unreleasedCount) :
    segment.releaseRecord ordinal count =
      segment.releaseIn [(record.streamId, record.sequence)] := by
  have records : segment.records.modify ordinal (fun record => { record with released := true }) =
      segment.records.map (StoredRecord.releaseIn [(record.streamId, record.sequence)]) := by
    refine List.ext_getElem? fun index => ?_
    rw [List.getElem?_modify, List.getElem?_map]
    cases isOther : segment.records[index]? with
    | none => rfl
    | some other =>
      by_cases same : ordinal = index
      · subst same
        cases isRecord.symm.trans isOther
        simp [StoredRecord.releaseIn]
      · have different : ¬((other.streamId, other.sequence) = (record.streamId, record.sequence)) := by
          intro equal
          obtain ⟨sameStream, sameSequence⟩ := Prod.mk.inj equal
          exact same (only index other isOther sameStream sameSequence).symm
        simp only [if_neg same, Option.map_some, StoredRecord.releaseIn, List.mem_singleton,
          different, decide_false, Bool.or_false]
        rfl
  rw [Segment.unreleasedCount] at counted
  unfold Segment.releaseIn
  rw [← records]
  show { segment with records := _, unreleasedRecords := count } = _
  rw [counted]
  rfl

/-! ### Composition -/

section

variable {storage middle final : Storage} {named first second : List Identity}

theorem Releases.refl (sound : storage.indexView.Sound) : Releases storage storage [] where
  identity := rfl
  active := rfl
  segments segmentId := by
    cases found : storage.segments[segmentId]? with
    | none => rfl
    | some segment => exact congrArg some (releaseIn_nil (sound.counted segmentId segment found)).symm
  streams _ := rfl
  pending _ _ := (if_neg List.not_mem_nil).symm

theorem Releases.trans (before : Releases storage middle first) (after : Releases middle final second) :
    Releases storage final (first ++ second) where
  identity := after.identity.trans before.identity
  active := after.active.trans before.active
  segments segmentId := by
    rw [after.segments, before.segments, Option.map_map]
    refine Option.map_congr fun segment _ => ?_
    exact releaseIn_releaseIn first second segment
  streams streamId := (after.streams streamId).trans (before.streams streamId)
  pending streamId sequence := by
    rw [after.pending, before.pending]
    by_cases inFirst : (streamId, sequence) ∈ first <;>
      by_cases inSecond : (streamId, sequence) ∈ second <;> simp [inFirst, inSecond]

/-- **Only the named pending records count**: the others are released already, or unknown. -/
theorem Releases.congr (sound : storage.indexView.Sound) (releases : Releases storage final first)
    (same : ∀ identity : Identity,
      (StreamMap.entry storage.streams identity.1).pending[identity.2]?.isSome = true →
        (identity ∈ first ↔ identity ∈ second)) : Releases storage final second where
  identity := releases.identity
  active := releases.active
  segments segmentId := by
    rw [releases.segments]
    cases found : storage.segments[segmentId]? with
    | none => rfl
    | some segment =>
      refine congrArg some (releaseIn_congr fun record member unreleased => ?_)
      obtain ⟨ordinal, isRecord⟩ := List.mem_iff_getElem?.mp member
      have isPending := sound.indexes.pending segmentId ordinal record trivial
        ⟨segment, found, isRecord⟩ unreleased
      refine same (record.streamId, record.sequence) ?_
      rw [show (StreamMap.entry storage.streams record.streamId).pending[record.sequence]? = _ from
        isPending]
      rfl
  streams := releases.streams
  pending streamId sequence := by
    rw [releases.pending]
    cases isPending : (StreamMap.entry storage.streams streamId).pending[sequence]? with
    | none => rw [ite_self, ite_self]
    | some place =>
      have agree := same (streamId, sequence) (by rw [isPending]; rfl)
      simp only [agree]

/-- A change that leaves segments and streams, but for what the manifest has persisted of these. -/
theorem Releases.onto (releases : Releases storage middle named)
    (identity : final.identity = middle.identity)
    (active : final.activeSegment = middle.activeSegment)
    (segments : final.segments = middle.segments)
    (streams : SameStreams middle.streams final.streams) : Releases storage final named where
  identity := identity.trans releases.identity
  active := active.trans releases.active
  segments := segments ▸ releases.segments
  streams streamId := by
    have same := congrArg (Option.map StreamState.fixed) (streams streamId)
    rw [Option.map_map, Option.map_map] at same
    exact Eq.trans same (releases.streams streamId)
  pending streamId sequence := by
    rw [← releases.pending]
    have same := streams streamId
    unfold StreamMap.entry
    cases isFinal : final.streams[streamId]? with
    | none =>
      rw [isFinal, Option.map_none, eq_comm, Option.map_eq_none_iff] at same
      rw [same]
    | some stream =>
      rw [isFinal, Option.map_some, eq_comm, Option.map_eq_some_iff] at same
      obtain ⟨old, isOld, equal⟩ := same
      have pending : old.logical.pending = stream.logical.pending := by rw [equal]
      have pending : old.pending = stream.pending := pending
      rw [isOld, Option.getD_some, Option.getD_some, pending]

/-! ### Marking -/

theorem releases_markRecordReleased {next : Storage} (sound : storage.indexView.Sound)
    (marks : storage.markRecordReleased identity = .ok next) :
    Releases storage next [identity] := by
  rcases markRecordReleased_eq_ok.mp marks with ⟨absent, rfl⟩ |
    ⟨state, place, segment, record, marked⟩
  · refine (Releases.refl sound).congr sound fun other isPending => ?_
    have different : other ≠ identity := by
      rintro rfl
      rw [absent] at isPending
      cases isPending
    simp [different]
  · have nextSound := sound_markRecordReleased sound marks
    have isPending := marked.isPending
    rw [← marked.entry] at isPending
    obtain ⟨-, target, ⟨holder, isHolder, isTarget⟩, sameStream, sameSequence, -⟩ :=
      sound.indexes.place _ _ _ isPending
    have isHolder : storage.segments[place.segmentId]? = some holder := isHolder
    cases marked.found.symm.trans isHolder
    cases marked.isRecord.symm.trans isTarget
    have isIdentity : identity = (record.streamId, record.sequence) := by
      rw [sameStream, sameSequence]
    -- no other record has the identity
    have only : ∀ (segmentId index : Nat) (holder : Segment) (other : StoredRecord),
        storage.segments[segmentId]? = some holder → holder.records[index]? = some other →
        other.streamId = record.streamId → other.sequence = record.sequence →
          segmentId = place.segmentId ∧ index = place.ordinal := by
      intro segmentId index holder other found isOther ofStream ofSequence
      exact sound.indexes.unique segmentId index other place.segmentId place.ordinal record trivial
        trivial ⟨holder, found, isOther⟩ ⟨segment, marked.found, marked.isRecord⟩ ofStream ofSequence
    have counted : segment.unreleasedRecords - 1 = (segment.releaseRecord place.ordinal
        (segment.unreleasedRecords - 1)).unreleasedCount := by
      refine nextSound.counted place.segmentId (segment.releaseRecord place.ordinal
        (segment.unreleasedRecords - 1)) ?_
      rw [marked.left]
      exact ExtTreeMap.getElem?_insert_self
    have replaced := releaseRecord_eq_releaseIn marked.isRecord (fun index other isOther ofStream
      ofSequence => (only _ _ _ _ marked.found isOther ofStream ofSequence).2) counted
    rw [← isIdentity] at replaced
    rw [marked.left]
    refine ⟨rfl, rfl, fun segmentId => ?_, fun streamId => ?_, fun streamId sequence => ?_⟩
    · show (storage.segments.insert place.segmentId _)[segmentId]? = _
      rw [ExtTreeMap.getElem?_insert]
      split_ifs with same
      · rw [← LawfulEqOrd.eq_of_compare same, marked.found, replaced]
        rfl
      · cases found : storage.segments[segmentId]? with
        | none => rfl
        | some other =>
          have untouched : other.releaseIn [identity] = other.releaseIn [] := by
            refine releaseIn_congr fun another member _ => ?_
            obtain ⟨index, isAnother⟩ := List.mem_iff_getElem?.mp member
            have different : ¬(another.streamId, another.sequence) = identity := by
              intro equal
              rw [isIdentity] at equal
              obtain ⟨ofStream, ofSequence⟩ := Prod.mk.inj equal
              obtain ⟨rfl, -⟩ := only segmentId index other another found isAnother ofStream ofSequence
              exact same ReflCmp.compare_self
            simp only [List.mem_singleton, different, List.not_mem_nil]
          rw [Option.map_some, untouched, releaseIn_nil (sound.counted segmentId other found)]
    · exact Maps.map_getElem?_insert marked.isState rfl
    · show (StreamMap.entry (storage.streams.insert identity.1 _) streamId).pending[sequence]? = _
      rw [StreamMap.entry, ExtTreeMap.getElem?_insert]
      simp only [List.mem_singleton]
      split_ifs with same isNamed isNamed
      · obtain ⟨rfl, rfl⟩ := Prod.mk.inj isNamed
        exact ExtTreeMap.getElem?_erase_self
      · obtain rfl := LawfulEqOrd.eq_of_compare same
        rw [StreamMap.entry, marked.isState, Option.getD_some, Option.getD_some,
          ExtTreeMap.getElem?_erase]
        rw [if_neg]
        intro equal
        exact isNamed (Prod.ext rfl (LawfulEqOrd.eq_of_compare equal).symm)
      · exact absurd (by rw [← isNamed]; exact ReflCmp.compare_self) same
      · rfl

theorem releases_marks {marked : Storage} {identities : List Identity}
    (sound : storage.indexView.Sound)
    (folded : tryFold Storage.markRecordReleased storage identities = .ok marked) :
    Releases storage marked identities := by
  induction identities generalizing storage with
  | nil =>
    cases folded
    exact .refl sound
  | cons identity rest ih =>
    rw [tryFold_cons, bind_eq_ok] at folded
    obtain ⟨next, marks, others⟩ := folded
    exact (releases_markRecordReleased sound marks).trans
      (ih (sound_markRecordReleased sound marks) others)

end

/-! ### The plan -/

/-- The sequences that a unit contributes: it names them, they are pending, and no earlier unit named
them. -/
def Storage.contributed (storage : Storage) (earlier : List Identity) (unit : ReleaseUnit) :
    List Nat :=
  (((unit.ids.map (·.sequence)).filter fun sequence =>
    (StreamMap.entry storage.streams unit.streamId).pending.contains sequence &&
      !decide ((unit.streamId, sequence) ∈ earlier)).insertionSort (· ≤ ·)).dedup

/-- What a unit adds to the plan: nothing, or all that it contributes. -/
def Storage.contribution (storage : Storage) (earlier : List Identity) (unit : ReleaseUnit) :
    List (StreamId × List Nat) :=
  if storage.contributed earlier unit = [] then []
  else [(unit.streamId, storage.contributed earlier unit)]

/-- The units that contribute, with what they contribute, after units that named some records. -/
def Storage.contributions (storage : Storage) :
    List Identity → List ReleaseUnit → List (StreamId × List Nat)
  | _, [] => []
  | earlier, unit :: rest => storage.contribution earlier unit ++
    storage.contributions (earlier ++ namedIds [unit]) rest

/-- The frame of a contributing unit. -/
def releaseFrame (contribution : StreamId × List Nat) : ManifestBody :=
  .release ⟨contribution.1, coalesceSequences contribution.2⟩

theorem dedup_insertionSort_eq {left right : List Nat} (same : ∀ value, value ∈ left ↔ value ∈ right) :
    (left.insertionSort (· ≤ ·)).dedup = (right.insertionSort (· ≤ ·)).dedup := by
  have sorted : ∀ values : List Nat, (values.insertionSort (· ≤ ·)).dedup.Pairwise (· < ·) := by
    intro values
    have ordered := (List.pairwise_insertionSort (· ≤ ·) values).sublist (List.dedup_sublist _)
    exact (ordered.and (List.nodup_dedup _)).imp fun both => Nat.lt_of_le_of_ne both.1 both.2
  refine (sorted left).eq_of_mem_iff (sorted right) fun value => ?_
  rw [List.mem_dedup, List.mem_dedup, List.mem_insertionSort, List.mem_insertionSort, same]

theorem mem_contributed {storage : Storage} {earlier : List Identity} {unit : ReleaseUnit} :
    sequence ∈ storage.contributed earlier unit ↔
      (unit.streamId, sequence) ∈ namedIds [unit] ∧
      sequence ∈ (StreamMap.entry storage.streams unit.streamId).pending ∧
      (unit.streamId, sequence) ∉ earlier := by
  rw [Storage.contributed, List.mem_dedup, List.mem_insertionSort, List.mem_filter]
  simp [namedIds]

/-- A sequence is scheduled once, and only if it is pending. -/
theorem foldl_scheduleSequence (streamId : StreamId) (stream : Option StreamState)
    (sequences : List Nat) (found : ExtTreeSet Identity × List Nat) :
    (∀ identity : Identity,
      identity ∈ (sequences.foldl (scheduleSequence streamId stream) found).1 ↔ identity ∈ found.1 ∨
        (identity.1 = streamId ∧ identity.2 ∈ sequences ∧
          stream.any (fun state => state.pending.contains identity.2) = true)) ∧
    ∀ sequence, sequence ∈ (sequences.foldl (scheduleSequence streamId stream) found).2 ↔
      sequence ∈ found.2 ∨ (sequence ∈ sequences ∧
        stream.any (fun state => state.pending.contains sequence) = true ∧
          (streamId, sequence) ∉ found.1) := by
  induction sequences generalizing found with
  | nil => simp
  | cons first rest ih =>
    obtain ⟨scheduled, chosen⟩ := ih (scheduleSequence streamId stream found first)
    rw [List.foldl_cons]
    by_cases takes : stream.any (fun state => state.pending.contains first) = true ∧
        (streamId, first) ∉ found.1
    · have stepped : scheduleSequence streamId stream found first =
          (found.1.insert (streamId, first), found.2 ++ [first]) := by
        refine if_pos ?_
        rw [Bool.and_eq_true, Bool.not_eq_true', ← Bool.not_eq_true,
          ← ExtTreeSet.mem_iff_contains]
        exact takes
      rw [stepped] at scheduled chosen ⊢
      constructor
      · intro identity
        rw [scheduled, ExtTreeSet.mem_insert, LawfulEqOrd.compare_eq_iff_eq]
        constructor
        · rintro ((rfl | old) | ⟨ofStream, member, isPending⟩)
          · exact .inr ⟨rfl, List.mem_cons_self, takes.1⟩
          · exact .inl old
          · exact .inr ⟨ofStream, List.mem_cons_of_mem _ member, isPending⟩
        · rintro (old | ⟨ofStream, member, isPending⟩)
          · exact .inl (.inr old)
          · rcases List.mem_cons.mp member with same | later
            · exact .inl (.inl (Prod.ext ofStream.symm same.symm))
            · exact .inr ⟨ofStream, later, isPending⟩
      · intro sequence
        rw [chosen, List.mem_append, List.mem_singleton, ExtTreeSet.mem_insert,
          LawfulEqOrd.compare_eq_iff_eq, List.mem_cons]
        constructor
        · rintro ((old | rfl) | ⟨member, isPending, fresh⟩)
          · exact .inl old
          · exact .inr ⟨.inl rfl, takes⟩
          · exact .inr ⟨.inr member, isPending, fun old => fresh (.inr old)⟩
        · rintro (old | ⟨rfl | later, isPending, fresh⟩)
          · exact .inl (.inl old)
          · exact .inl (.inr rfl)
          · by_cases same : sequence = first
            · exact .inl (.inr same)
            · refine .inr ⟨later, isPending, ?_⟩
              rintro (equal | old)
              · exact same (Prod.mk.inj equal).2.symm
              · exact fresh old
    · have stepped : scheduleSequence streamId stream found first = found := by
        refine if_neg ?_
        rw [Bool.and_eq_true, Bool.not_eq_true', ← Bool.not_eq_true,
          ← ExtTreeSet.mem_iff_contains]
        exact takes
      rw [stepped] at scheduled chosen ⊢
      constructor
      · intro identity
        rw [scheduled, List.mem_cons]
        constructor
        · rintro (old | ⟨ofStream, member, isPending⟩)
          · exact .inl old
          · exact .inr ⟨ofStream, .inr member, isPending⟩
        · rintro (old | ⟨ofStream, same | later, isPending⟩)
          · exact .inl old
          · by_contra fresh
            refine takes ⟨same ▸ isPending, fun old => fresh (.inl ?_)⟩
            rwa [← ofStream, ← same] at old
          · exact .inr ⟨ofStream, later, isPending⟩
      · intro sequence
        rw [chosen, List.mem_cons]
        constructor
        · rintro (old | ⟨member, isPending, fresh⟩)
          · exact .inl old
          · exact .inr ⟨.inr member, isPending, fresh⟩
        · rintro (old | ⟨rfl | later, isPending, fresh⟩)
          · exact .inl old
          · exact absurd ⟨isPending, fresh⟩ takes
          · exact .inr ⟨later, isPending, fresh⟩

section

variable {storage : Storage} {plan next start : ReleasePlan} {unit : ReleaseUnit}
  {units : List ReleaseUnit} {earlier : List Identity}

theorem any_pending_iff :
    storage.streams[streamId]?.any (fun state => state.pending.contains sequence) = true ↔
      sequence ∈ (StreamMap.entry storage.streams streamId).pending := by
  unfold StreamMap.entry
  cases storage.streams[streamId]? with
  | none => simp [StreamState.default]
  | some state => exact ExtTreeMap.mem_iff_contains.symm

/-- Exactly the pending ones of some records are scheduled. -/
def ReleasePlan.Schedules (plan : ReleasePlan) (storage : Storage) (earlier : List Identity) : Prop :=
  ∀ identity : Identity, identity ∈ plan.scheduled ↔
    identity ∈ earlier ∧ identity.2 ∈ (StreamMap.entry storage.streams identity.1).pending

/-- What one unit schedules, and what it contributes. -/
theorem schedules_unit (schedules : plan.Schedules storage earlier) (unit : ReleaseUnit) :
    (∀ identity : Identity, identity ∈ ((unit.ids.map (·.sequence)).foldl
      (scheduleSequence unit.streamId storage.streams[unit.streamId]?) (plan.scheduled, [])).1 ↔
        identity ∈ earlier ++ namedIds [unit] ∧
          identity.2 ∈ (StreamMap.entry storage.streams identity.1).pending) ∧
    (((unit.ids.map (·.sequence)).foldl (scheduleSequence unit.streamId
      storage.streams[unit.streamId]?) (plan.scheduled, [])).2.insertionSort (· ≤ ·)).dedup =
        storage.contributed earlier unit := by
  obtain ⟨scheduled, chosen⟩ := foldl_scheduleSequence unit.streamId storage.streams[unit.streamId]?
    (unit.ids.map (·.sequence)) (plan.scheduled, [])
  simp only [any_pending_iff] at scheduled chosen
  constructor
  · intro identity
    have named : identity ∈ namedIds [unit] ↔
        identity.1 = unit.streamId ∧ identity.2 ∈ unit.ids.map (·.sequence) := by
      obtain ⟨streamId, sequence⟩ := identity
      simp only [namedIds, List.flatMap_cons, List.flatMap_nil, List.append_nil, List.mem_map,
        Prod.mk.injEq]
      constructor
      · rintro ⟨id, member, rfl, rfl⟩
        exact ⟨rfl, id, member, rfl⟩
      · rintro ⟨rfl, id, member, rfl⟩
        exact ⟨id, member, rfl, rfl⟩
    rw [scheduled, List.mem_append, named, schedules identity]
    constructor
    · rintro (⟨old, isPending⟩ | ⟨ofStream, member, isPending⟩)
      · exact ⟨.inl old, isPending⟩
      · exact ⟨.inr ⟨ofStream, member⟩, ofStream ▸ isPending⟩
    · rintro ⟨old | ⟨ofStream, member⟩, isPending⟩
      · exact .inl ⟨old, isPending⟩
      · exact .inr ⟨ofStream, member, ofStream ▸ isPending⟩
  · refine dedup_insertionSort_eq fun sequence => ?_
    rw [chosen, List.mem_filter]
    have fresh := schedules (unit.streamId, sequence)
    simp only [List.not_mem_nil, false_or, Bool.and_eq_true, Bool.not_eq_true', decide_eq_false_iff_not,
      ← ExtTreeMap.mem_iff_contains, fresh]
    tauto

/-- **One unit of the plan.** -/
theorem planUnit_eq_ok (schedules : plan.Schedules storage earlier)
    (planned : storage.planUnit plan unit = .ok next) :
    storage.validateRelease unit = .ok () ∧
      next.Schedules storage (earlier ++ namedIds [unit]) ∧
      next.applications = plan.applications ++ storage.contribution earlier unit ∧
      next.bodies = plan.bodies ++ (storage.contribution earlier unit).map releaseFrame := by
  simp only [Storage.planUnit, bind_eq_ok] at planned
  obtain ⟨_, valid, planned⟩ := planned
  obtain ⟨schedulesNext, sequences⟩ := schedules_unit schedules unit
  rw [sequences] at planned
  refine ⟨valid, ?_⟩
  unfold Storage.contribution
  split at planned
  · rename_i nothing
    cases planned
    rw [if_pos nothing]
    exact ⟨schedulesNext, (List.append_nil _).symm, (List.append_nil _).symm⟩
  · rename_i something
    simp only [ReleasePlan.add, bind_eq_ok, pure_eq_ok] at planned
    obtain ⟨_, -, _, -, rfl⟩ := planned
    rw [if_neg something]
    exact ⟨schedulesNext, rfl, rfl⟩

theorem planUnits_eq_ok (schedules : start.Schedules storage earlier)
    (planned : tryFold storage.planUnit start units = .ok plan) :
    (∀ unit ∈ units, storage.validateRelease unit = .ok ()) ∧
      plan.applications = start.applications ++ storage.contributions earlier units ∧
      plan.bodies = start.bodies ++ (storage.contributions earlier units).map releaseFrame := by
  induction units generalizing start earlier with
  | nil =>
    cases planned
    exact ⟨by simp, (List.append_nil _).symm, (List.append_nil _).symm⟩
  | cons unit rest ih =>
    rw [tryFold_cons, bind_eq_ok] at planned
    obtain ⟨middle, first, others⟩ := planned
    obtain ⟨valid, schedulesNext, applications, bodies⟩ := planUnit_eq_ok schedules first
    obtain ⟨validRest, applicationsRest, bodiesRest⟩ := ih schedulesNext others
    refine ⟨fun other member => ?_, ?_, ?_⟩
    · rcases List.mem_cons.mp member with rfl | later
      · exact valid
      · exact validRest other later
    · rw [applicationsRest, applications, List.append_assoc]
      rfl
    · rw [bodiesRest, bodies, List.append_assoc, ← List.map_append]
      rfl

/-- **The plan of a group** has a frame for each unit that contributes, and applies what they
contribute. -/
theorem planReleases_eq_ok (planned : storage.planReleases units = .ok plan) :
    (∀ unit ∈ units, storage.validateRelease unit = .ok ()) ∧
      plan.applications = storage.contributions [] units ∧
      plan.bodies = (storage.contributions [] units).map releaseFrame :=
  @planUnits_eq_ok storage plan ⟨∅, [], [], 0, 0, 0⟩ units [] (fun identity => by simp) planned

/-! Nothing but the validation refuses a plan: a unit contributes no more than the pending records,
and the frame of so many ranges fits a word. -/

theorem coalesceSequences_length (sequences : List Nat) :
    (coalesceSequences sequences).length ≤ sequences.length := by
  have general : ∀ (rest : List Nat) (current : SequenceRange),
      (coalesceFrom current rest).length ≤ rest.length + 1 := by
    intro rest
    induction rest with
    | nil => simp [coalesceFrom]
    | cons sequence rest ih =>
      intro current
      rw [coalesceFrom, List.length_cons]
      split
      · exact (ih _).trans (by omega)
      · exact Nat.succ_le_succ (ih _)
  cases sequences with
  | nil => rfl
  | cons sequence rest => exact general rest _

theorem contributed_length (storage : Storage) (earlier : List Identity) (unit : ReleaseUnit) :
    (storage.contributed earlier unit).length ≤ pendingCount storage.streams := by
  have part : (storage.contributed earlier unit).length ≤
      (StreamMap.entry storage.streams unit.streamId).pending.size := by
    rw [← ExtTreeMap.length_keys]
    refine (List.subperm_of_subset (List.nodup_dedup _) fun sequence member => ?_).length_le
    exact ExtTreeMap.mem_keys.mpr (mem_contributed.mp member).2.1
  refine part.trans ?_
  rw [pendingCount, @sum_entry (fun stream => stream.pending.size) rfl _ unit.streamId]
  exact Nat.le_add_right _ _

theorem exists_add {sequences : List Nat} {streamId : StreamId} {scheduled : ExtTreeSet Identity}
    (short : 72 + sequences.length * 16 ≤ wordMax) :
    ∃ next, plan.add streamId scheduled sequences = .ok next := by
  have ranges := coalesceSequences_length sequences
  have fixed : manifestFrameHeaderLen + 24 = 72 := rfl
  simp only [ReleasePlan.add, bind_eq_ok, orError_eq_ok, toWord_eq_some,
    maximalReleaseFrame, Option.bind_eq_bind, Option.bind_eq_some_iff, checkedAdd_eq_some,
    checkedMul_eq_some, pure_eq_ok]
  exact ⟨_, _, ⟨rfl, by omega⟩, _, ⟨_, ⟨rfl, by omega⟩, _, ⟨rfl, by omega⟩, rfl, by omega⟩, rfl⟩

theorem exists_planUnits (room : 72 + pendingCount storage.streams * 16 ≤ wordMax)
    (schedules : start.Schedules storage earlier)
    (valid : ∀ unit ∈ units, storage.validateRelease unit = .ok ()) :
    ∃ plan, tryFold storage.planUnit start units = .ok plan := by
  induction units generalizing start earlier with
  | nil => exact ⟨start, rfl⟩
  | cons unit rest ih =>
    have first : ∃ next, storage.planUnit start unit = .ok next := by
      have bounded := contributed_length storage earlier unit
      have short : 72 + (storage.contributed earlier unit).length * 16 ≤ wordMax := by omega
      simp only [Storage.planUnit, bind_eq_ok, valid unit List.mem_cons_self]
      rw [(schedules_unit schedules unit).2]
      split
      · exact ⟨_, (), trivial, rfl⟩
      · obtain ⟨next, added⟩ := @exists_add start (storage.contributed earlier unit) unit.streamId
          (List.foldl (scheduleSequence unit.streamId storage.streams[unit.streamId]?)
            (start.scheduled, []) (unit.ids.map (·.sequence))).1 short
        exact ⟨next, (), trivial, added⟩
    obtain ⟨next, planned⟩ := first
    obtain ⟨-, schedulesNext, -⟩ := planUnit_eq_ok schedules planned
    obtain ⟨plan, others⟩ := ih schedulesNext
      fun other member => valid other (List.mem_cons_of_mem _ member)
    refine ⟨plan, ?_⟩
    rw [tryFold_cons, planned]
    exact others

theorem pending_room (sound : storage.indexView.Sound) (balanced : storage.bookView.Balanced) :
    72 + pendingCount storage.streams * 16 ≤ wordMax := by
  have pending : pendingCount storage.streams ≤ segmentSum (fun segment => segment.records.length)
    storage.segments storage.nextSegmentId := pendingCount_le sound
  have records : 16 * segmentSum (fun segment => segment.records.length) storage.segments
    storage.nextSegmentId ≤ segmentSum Segment.fileLen storage.segments storage.nextSegmentId :=
      balanced.segmentSum_le
  have books : rootSuperblockLen + (storage.manifest.checkpointLen + storage.manifest.logLen) +
    segmentSum Segment.fileLen storage.segments storage.nextSegmentId = storage.actualFileBytes :=
      balanced.books
  have bounded : storage.actualFileBytes ≤ wordMax := balanced.bounded
  have control : checkpointBytes 0 + manifestLogHeaderLen ≤
      storage.manifest.checkpointLen + storage.manifest.logLen :=
    balanced.persisted [] List.nodup_nil (by simp)
  have least : checkpointBytes 0 + manifestLogHeaderLen = 120 := rfl
  omega

/-- The records that contributions release. -/
theorem mem_contributions {identity : Identity} :
    (∃ contribution ∈ storage.contributions earlier units,
      contribution.1 = identity.1 ∧ identity.2 ∈ contribution.2) ↔
      identity ∈ namedIds units ∧
      identity.2 ∈ (StreamMap.entry storage.streams identity.1).pending ∧ identity ∉ earlier := by
  have one : ∀ (earlier : List Identity) (unit : ReleaseUnit),
      (∃ contribution ∈ storage.contribution earlier unit,
        contribution.1 = identity.1 ∧ identity.2 ∈ contribution.2) ↔
        identity ∈ namedIds [unit] ∧
        identity.2 ∈ (StreamMap.entry storage.streams identity.1).pending ∧ identity ∉ earlier := by
    intro earlier unit
    obtain ⟨streamId, sequence⟩ := identity
    have ofStream : (streamId, sequence) ∈ namedIds [unit] → unit.streamId = streamId := by
      simp only [namedIds, List.flatMap_cons, List.flatMap_nil, List.append_nil, List.mem_map,
        Prod.mk.injEq]
      rintro ⟨_, -, same, -⟩
      exact same
    unfold Storage.contribution
    constructor
    · rintro ⟨contribution, member, rfl, isSequence⟩
      split at member
      · cases member
      · cases List.mem_singleton.mp member
        exact mem_contributed.mp isSequence
    · rintro ⟨isNamed, isPending, fresh⟩
      obtain rfl := ofStream isNamed
      have isSequence := mem_contributed.mpr ⟨isNamed, isPending, fresh⟩
      rw [if_neg (List.ne_nil_of_mem isSequence)]
      exact ⟨_, List.mem_singleton_self _, rfl, isSequence⟩
  induction units generalizing earlier with
  | nil => simp [Storage.contributions, namedIds]
  | cons unit rest ih =>
    have named : identity ∈ namedIds (unit :: rest) ↔
        identity ∈ namedIds [unit] ∨ identity ∈ namedIds rest := by
      simp only [namedIds, List.flatMap_cons, List.flatMap_nil, List.append_nil, List.mem_append]
    have both := @ih (earlier ++ namedIds [unit])
    rw [List.mem_append] at both
    simp only [Storage.contributions, List.mem_append, or_and_right, exists_or]
    refine (or_congr (one earlier unit) both).trans ?_
    rw [named]
    tauto

theorem mem_identities (planned : storage.planReleases units = .ok plan) (identity : Identity) :
    identity ∈ plan.identities ↔ identity ∈ namedIds units ∧
      identity.2 ∈ (StreamMap.entry storage.streams identity.1).pending := by
  obtain ⟨-, applications, -⟩ := planReleases_eq_ok planned
  have contributed := @mem_contributions storage units [] identity
  simp only [List.not_mem_nil, not_false_eq_true, and_true] at contributed
  rw [← contributed, ReleasePlan.identities, applications, List.mem_flatMap]
  refine exists_congr fun contribution => and_congr_right fun _ => ?_
  obtain ⟨streamId, sequence⟩ := identity
  rw [List.mem_map]
  constructor
  · rintro ⟨_, member, same⟩
    obtain ⟨rfl, rfl⟩ := Prod.mk.inj same
    exact ⟨rfl, member⟩
  · rintro ⟨rfl, member⟩
    exact ⟨sequence, member, rfl⟩

/-- Nothing is planned exactly if no named record is pending. -/
theorem contributions_eq_nil : storage.contributions [] units = [] ↔
    ∀ identity ∈ namedIds units,
      identity.2 ∉ (StreamMap.entry storage.streams identity.1).pending := by
  constructor
  · intro nothing identity isNamed isPending
    obtain ⟨_, member, -⟩ := mem_contributions.mpr ⟨isNamed, isPending, List.not_mem_nil⟩
    rw [nothing] at member
    cases member
  · intro nonePending
    refine List.eq_nil_iff_forall_not_mem.mpr fun contribution member => ?_
    have something : contribution.2 ≠ [] := by
      have every : ∀ (earlier : List Identity) (units : List ReleaseUnit),
          ∀ contribution ∈ storage.contributions earlier units, contribution.2 ≠ [] := by
        intro earlier units
        induction units generalizing earlier with
        | nil => simp [Storage.contributions]
        | cons unit rest ih =>
          intro contribution member
          rcases List.mem_append.mp member with here | later
          · unfold Storage.contribution at here
            split at here
            · cases here
            · rename_i some
              cases List.mem_singleton.mp here
              exact some
          · exact ih _ contribution later
      exact every [] units contribution member
    obtain ⟨sequence, isSequence⟩ := List.exists_mem_of_ne_nil _ something
    obtain ⟨isNamed, isPending, -⟩ := (@mem_contributions storage units []
      (contribution.1, sequence)).mp ⟨contribution, member, rfl, isSequence⟩
    exact nonePending (contribution.1, sequence) isNamed isPending

end

/-! ### A group -/

section

variable [Hasher] {world final : World} {units : List ReleaseUnit}

/-- Frames are appended to the manifest log, and no other file changes. -/
def Logged (world : World) (bodies : List ManifestBody) (fs : Fs) : Prop :=
  ∃ frames last, encodeFrames (world.storage.manifest.lastSeq + 1) bodies = .ok (frames, last) ∧
    frames.length = bodies.length ∧
    fs.content world.storage.manifest.file =
      world.fs.content world.storage.manifest.file ++ frames.flatten ∧
    ∀ other, other ≠ world.storage.manifest.file → fs.content other = world.fs.content other

theorem logged_appendGroup {manifest : Manifest} {outcome : DurabilityOutcome} {fs : Fs}
    (stored : Stored world file) (some : bodies ≠ [])
    (returned : Returns (world.storage.manifest.appendGroup bodies outcome) world.fs manifest fs) :
    Logged world bodies fs := by
  have others := (frame_appendGroup returned).2.2.2
  obtain ⟨none, -⟩ | ⟨frames, last, -, -, encoded, -, rfl, rfl⟩ :=
    Manifest.returns_appendGroup returned
  · exact absurd none some
  have nonempty : world.fs.content world.storage.manifest.file ≠ [] := by
    intro empty
    have magic := stored.control.logMagic
    rw [empty] at magic
    exact absurd magic (by decide)
  exact ⟨frames, last, encoded, (encodeFrames_forall₂ encoded).length_eq.symm,
    ((Fs.holdsAt_content nonempty).append frames.flatten).sync.content, others⟩

/-- **A group releases the records its units name.** -/
theorem releases_releaseGroup (sound : world.storage.indexView.Sound)
    (returned : Returns (releaseGroup units) world () final) :
    Releases world.storage final.storage (namedIds units) := by
  obtain ⟨plan, planned, ⟨nothing, rfl⟩ |
    ⟨-, manifest, fs, bytes, commits, marked, -, -, folded, compacts⟩⟩ := returns_releaseGroup returned
  · obtain ⟨-, -, bodies⟩ := planReleases_eq_ok planned
    rw [nothing, eq_comm, List.map_eq_nil_iff, contributions_eq_nil] at bodies
    refine (Releases.refl sound).congr sound fun identity isPending => ?_
    simp only [List.not_mem_nil, false_iff]
    exact fun isNamed => bodies identity isNamed
      (ExtTreeMap.mem_iff_isSome_getElem?.mpr isPending)
  · have marks : Releases world.storage marked plan.identities := by
      have changed := releases_marks (by exact sound) folded
      exact ⟨changed.identity, changed.active, changed.segments, changed.streams, changed.pending⟩
    have released : Releases world.storage marked (namedIds units) := by
      refine marks.congr sound fun identity isPending => ?_
      rw [mem_identities planned]
      exact and_iff_left (ExtTreeMap.mem_iff_isSome_getElem?.mpr isPending)
    rcases compacts with returns | rfl
    · obtain ⟨-, streams, segments, -⟩ := compacted_compactManifest returns
      obtain ⟨_, _, _, _, -, -, rfl⟩ := returns_compactManifest returns
      exact released.onto rfl rfl segments streams
    · exact released

/-- Whether a unit is valid does not depend on what was released. -/
theorem Releases.validateRelease {storage final : Storage} {named : List Identity}
    (releases : Releases storage final named) (unit : ReleaseUnit) :
    final.validateRelease unit = storage.validateRelease unit := by
  have root : final.rootId = storage.rootId := congrArg Prod.fst releases.identity
  have config : final.config = storage.config := congrArg Prod.snd releases.identity
  have highwater : final.streams[unit.streamId]?.bind (·.highwater) =
      storage.streams[unit.streamId]?.bind (·.highwater) := by
    have same := congrArg (Option.bind · Prod.fst) (releases.streams unit.streamId)
    simp only [Option.bind_map] at same
    exact same
  have each : final.validateReleaseId unit.streamId = storage.validateReleaseId unit.streamId := by
    funext id
    rw [Storage.validateReleaseId, Storage.validateReleaseId, root, highwater]
  rw [Storage.validateRelease, Storage.validateRelease, config, each]

/-- **What a successful release group has done.** -/
structure SetRelease (world : World) (units : List ReleaseUnit) (final : World) : Prop where
  valid : ∀ unit ∈ units, world.storage.validateRelease unit = .ok ()
  releases : Releases world.storage final.storage (namedIds units)
  stays : ∀ unit, final.storage.validateRelease unit = world.storage.validateRelease unit
  files : ∀ (segmentId : Nat) (segment : Segment),
    world.storage.segments[segmentId]? = some segment →
      final.fs.content segment.file = world.fs.content segment.file
  silent : (∀ identity ∈ namedIds units,
    identity.2 ∉ (world.storage.stream identity.1).pending) → final = world
  written : (∃ identity ∈ namedIds units, identity.2 ∈ (world.storage.stream identity.1).pending) →
    ∃ marked fs, Logged world ((world.storage.contributions [] units).map releaseFrame) fs ∧
      (Returns compactManifest ⟨marked, fs⟩ () final ∨ final = ⟨marked, fs⟩)

theorem setRelease_releaseGroup (sound : world.storage.indexView.Sound) (stored : Stored world file)
    (returned : Returns (releaseGroup units) world () final) : SetRelease world units final := by
  have releases := releases_releaseGroup sound returned
  obtain ⟨plan, planned, effect⟩ := returns_releaseGroup returned
  obtain ⟨valid, -, bodies⟩ := planReleases_eq_ok planned
  have nothing : plan.bodies = [] ↔ ∀ identity ∈ namedIds units,
      identity.2 ∉ (world.storage.stream identity.1).pending := by
    rw [bodies, List.map_eq_nil_iff]
    exact contributions_eq_nil
  refine ⟨valid, releases, releases.validateRelease, ?_, fun none => ?_, fun some => ?_⟩
  · intro segmentId segment found
    rcases effect with ⟨-, rfl⟩ | ⟨-, manifest, fs, bytes, commits, marked, appended, -, -, compacts⟩
    · rfl
    · have onDisk := stored.segments segmentId segment found
      obtain ⟨-, -, segments, others⟩ := frame_appendGroup appended
      have kept := others _ (stored.control.apart onDisk).2
      rcases compacts with compacted | rfl
      · have later : segment.OnDisk segmentId fs := onDisk.of_same (lookup_of_segments segments _) kept
        exact (content_compactManifest (by exact later) compacted).trans kept
      · exact kept
  · rcases effect with ⟨-, rfl⟩ | ⟨something, -⟩
    · rfl
    · exact absurd (nothing.mpr none) something
  · obtain ⟨identity, isNamed, isPending⟩ := some
    rcases effect with ⟨empty, -⟩ | ⟨something, manifest, fs, bytes, commits, marked, appended, -, -,
      compacts⟩
    · exact absurd isPending (nothing.mp empty identity isNamed)
    · rw [← bodies]
      exact ⟨marked, fs, logged_appendGroup stored something appended, compacts⟩

/-! ### Groups one after the other -/

/-- Successive release groups. -/
def ReleaseRun : World → List (List ReleaseUnit) → World → Prop
  | world, [], final => final = world
  | world, units :: rest, final =>
    ∃ middle, Returns (releaseGroup units) world () middle ∧ ReleaseRun middle rest final

/-- **Two roots agree in what releases change**: pending records and their counters, released flags,
reclaimable segments. -/
structure SameReleased (left right : Storage) : Prop where
  segments : left.segments = right.segments
  pending : ∀ streamId, (left.stream streamId).pending = (right.stream streamId).pending
  streamBytes : ∀ streamId,
    (left.stream streamId).pendingPayloadBytes = (right.stream streamId).pendingPayloadBytes
  pendingRecords : left.pendingRecords = right.pendingRecords
  pendingPayloadBytes : left.pendingPayloadBytes = right.pendingPayloadBytes
  reclaimableSegments : left.reclaimableSegments = right.reclaimableSegments
  reclaimableBytes : left.reclaimableBytes = right.reclaimableBytes

theorem releases_run {groups : List (List ReleaseUnit)} (reached : Reached world)
    (run : ReleaseRun world groups final) :
    Reached final ∧ Releases world.storage final.storage (namedIds groups.flatten) := by
  induction groups generalizing world with
  | nil =>
    cases run
    exact ⟨reached, .refl (sound_reached reached)⟩
  | cons units rest ih =>
    obtain ⟨middle, returned, others⟩ := run
    have middleReached : Reached middle := @Reached.operated _ (.release units) _ _ reached returned
    obtain ⟨finalReached, releasesRest⟩ := ih middleReached others
    refine ⟨finalReached, ?_⟩
    have both := (releases_releaseGroup (sound_reached reached) returned).trans releasesRest
    rwa [namedIds, namedIds, ← List.flatMap_append] at both

/-- The counters are functions of segments and pending records. -/
theorem sameReleased_of_releases {left right : World} {named others : List Identity}
    (leftReached : Reached left) (rightReached : Reached right)
    (toLeft : Releases world.storage left.storage named)
    (toRight : Releases world.storage right.storage others)
    (same : ∀ identity, identity ∈ named ↔ identity ∈ others) :
    SameReleased left.storage right.storage := by
  have segments : left.storage.segments = right.storage.segments := by
    refine ExtTreeMap.ext_getElem? fun segmentId => ?_
    rw [toLeft.segments, toRight.segments]
    exact Option.map_congr fun segment _ => releaseIn_congr fun record _ _ => same _
  have pending : ∀ streamId,
      (left.storage.stream streamId).pending = (right.storage.stream streamId).pending := by
    intro streamId
    refine ExtTreeMap.ext_getElem? fun sequence => ?_
    refine (toLeft.pending streamId sequence).trans (Eq.trans ?_ (toRight.pending streamId sequence).symm)
    simp only [same]
  have streams : ∀ streamId, left.storage.streams[streamId]?.map StreamState.fixed =
      right.storage.streams[streamId]?.map StreamState.fixed :=
    fun streamId => (toLeft.streams streamId).trans (toRight.streams streamId).symm
  -- the streams are the same, and so are their measures
  have measured : ∀ (measure : StreamState → Nat), (∀ streamId, measure (left.storage.stream streamId) =
      measure (right.storage.stream streamId)) →
      Maps.sum (fun _ stream => measure stream) left.storage.streams =
        Maps.sum (fun _ stream => measure stream) right.storage.streams := by
    intro measure agree
    refine Maps.sum_eq_of_entries fun streamId => ?_
    have known := streams streamId
    have equal := agree streamId
    unfold Storage.stream at equal
    cases isLeft : left.storage.streams[streamId]? with
    | none =>
      rw [isLeft, Option.map_none, eq_comm, Option.map_eq_none_iff] at known
      rw [known]
    | some stream =>
      rw [isLeft, Option.map_some, eq_comm, Option.map_eq_some_iff] at known
      obtain ⟨other, isRight, -⟩ := known
      rw [isLeft, isRight] at equal
      rw [isRight]
      exact congrArg some equal
  have recounted : ∀ streamId,
      (left.storage.stream streamId).recountBytes left.storage.segments =
        (right.storage.stream streamId).recountBytes right.storage.segments := by
    intro streamId
    rw [StreamState.recountBytes, StreamState.recountBytes, pending, segments]
  have leftExact := aggregates_reached leftReached
  have rightExact := aggregates_reached rightReached
  refine ⟨segments, pending, fun streamId => ?_, ?_, ?_, ?_, ?_⟩
  · exact ((counters_reached leftReached).each streamId).trans
      ((recounted streamId).trans ((counters_reached rightReached).each streamId).symm)
  · rw [leftExact.pendingRecords, rightExact.pendingRecords]
    exact measured (fun stream => stream.pending.size) fun streamId => by rw [pending]
  · rw [leftExact.pendingBytes, rightExact.pendingBytes, ← segments]
    refine measured (fun stream => stream.recountBytes left.storage.segments) fun streamId => ?_
    rw [recounted, segments]
  · rw [leftExact.reclaimable, rightExact.reclaimable, segments]
  · rw [leftExact.reclaimableBytes, rightExact.reclaimableBytes, segments]

/-- **Release is an idempotent, order-independent set operation.** In every reachable state

* nothing but their validation refuses units before the manifest is written,
* a successful group does what `SetRelease` says,
* successive groups that name the same records end alike, in whatever order, grouping and number the
  records are named. -/
theorem release_is_set_operation (reached : Reached world) :
    (∀ units, (∀ unit ∈ units, world.storage.validateRelease unit = .ok ()) ↔
      ∃ plan, world.storage.planReleases units = .ok plan) ∧
    (∀ units final, Returns (releaseGroup units) world () final → SetRelease world units final) ∧
    ∀ groups others left right, ReleaseRun world groups left → ReleaseRun world others right →
      (∀ identity, identity ∈ namedIds groups.flatten ↔ identity ∈ namedIds others.flatten) →
        SameReleased left.storage right.storage := by
  have sound := sound_reached reached
  obtain ⟨file, stored⟩ := stored_reached reached
  refine ⟨fun units => ⟨fun valid => ?_, ?_⟩, fun units final returned => ?_, ?_⟩
  · exact @exists_planUnits world.storage ⟨∅, [], [], 0, 0, 0⟩ units []
      (pending_room sound (balanced_reached reached))
      (fun identity => by simp) valid
  · rintro ⟨plan, planned⟩
    exact (planReleases_eq_ok planned).1
  · exact setRelease_releaseGroup sound stored returned
  · intro groups others left right toLeft toRight same
    obtain ⟨leftReached, releasesLeft⟩ := releases_run reached toLeft
    obtain ⟨rightReached, releasesRight⟩ := releases_run reached toRight
    exact sameReleased_of_releases leftReached rightReached releasesLeft releasesRight same

end

/-- One record released once, and the same record named three times in two units. -/
theorem release_is_set_operation_sample : ∃ appended once thrice : World,
    appended.storage.pendingRecords = 1 ∧ once.storage.pendingRecords = 0 ∧
    @SetRelease Hasher.fnv appended [⟨1, [⟨.sample, 1, 0⟩]⟩] once ∧
    SameReleased once.storage thrice.storage := by
  let id : RecordId := ⟨.sample, 1, 0⟩
  have evaluated : (Sample.extend .sample [Sample.append [Sample.unit 1]] [Sample.release 1 0]).any
      (fun (appended, released) =>
        decide (appended.storage.pendingRecords = 1 ∧ released.storage.pendingRecords = 0) &&
          ((@releaseGroup Hasher.fnv [⟨1, [id, id]⟩, ⟨1, [id]⟩]).completion appended).isSome) = true := by
    decide +kernel
  obtain ⟨⟨appended, once⟩, found, checked⟩ := exists_of_any evaluated
  simp only [Bool.and_eq_true, decide_eq_true_eq] at checked
  obtain ⟨⟨one, none⟩, completes⟩ := checked
  obtain ⟨⟨_, thrice⟩, isThrice⟩ := Option.isSome_iff_exists.mp completes
  obtain ⟨reached, runs⟩ := Sample.runs_of_extend found
  have releases := @Runs.returns Hasher.fnv _ _ _ runs
  obtain ⟨-, sets, agree⟩ := @release_is_set_operation Hasher.fnv appended reached
  exact ⟨appended, once, thrice, one, none, sets _ _ releases,
    agree [[⟨1, [id]⟩]] [[⟨1, [id, id]⟩, ⟨1, [id]⟩]] once thrice ⟨once, releases, rfl⟩
      ⟨thrice, returns_of_completion isThrice, rfl⟩ (by simp [namedIds])⟩

end Camus
