/-
**The reserve covers every next write of the maintenance.**

A bounded root keeps free what its maintenance may need next. The reserve is a closed formula of the
numbers of streams and records:

* `reserveOf` — the formula, over the loads of the segments (records and streams);
  `maintenanceHeadroomBytes_eq_ok` — what the checked computation returns.
* `frameLen` — the length of a manifest frame, so that the length of a group is a sum.
* `reserve_covers` — a checkpoint of any released flags fits its part of the reserve; release groups
  within the client's bound and removals of at most four segments fit the other.
-/

import Camus.Storage.ReleaseSet

namespace Camus

open Codec Checked Disk FaultIo Result Std

variable {bound streams bytes : Nat}

/-! ### The formula -/

/-- The largest checkpoint entry of a segment with some records. -/
def entryBytes (records : Nat) : Nat := 72 + divCeil records 64 * 8

/-- The largest group of frames, where a segment holds records of some streams. -/
def groupReserve (config : Config) (streams : Nat) : Nat :=
  max (max (manifestFrameHeaderLen + 24 + config.maxReleaseRecords * 16) 80) ((64 + streams * 16) * 4)

theorem entryBytes_mono {fewer records : Nat} (le : fewer ≤ records) :
    entryBytes fewer ≤ entryBytes records := by
  unfold entryBytes divCeil
  omega

theorem groupReserve_mono (config : Config) {fewer streams : Nat} (le : fewer ≤ streams) :
    groupReserve config fewer ≤ groupReserve config streams := by
  unfold groupReserve
  omega

/-- The checkpoint entries of segments with some loads. -/
def entriesOf (loads : List (Nat × Nat)) : Nat := (loads.map fun load => entryBytes load.1).sum

/-- The most streams of a load. -/
def largestOf (loads : List (Nat × Nat)) : Nat := (loads.map Prod.snd).foldr max 0

/-- The reserve of a root with some streams and loads. -/
def reserveOf (config : Config) (streams : Nat) (loads : List (Nat × Nat)) (footer : Nat) : Nat :=
  checkpointBytes streams + entriesOf loads + groupReserve config (largestOf loads) + footer

/-- The records and streams of a segment. -/
def Segment.load (segment : Segment) : Nat × Nat := (segment.records.length, segment.uniqueStreams)

/-- Records and streams can be counted. -/
def Countable (load : Nat × Nat) : Prop := load.1 ≤ wordMax ∧ load.2 ≤ wordMax

@[simp] theorem entriesOf_nil : entriesOf [] = 0 := rfl

@[simp] theorem entriesOf_cons (load : Nat × Nat) (rest : List (Nat × Nat)) :
    entriesOf (load :: rest) = entryBytes load.1 + entriesOf rest := by
  rw [entriesOf, List.map_cons, List.sum_cons]
  rfl

@[simp] theorem largestOf_nil : largestOf [] = 0 := rfl

@[simp] theorem largestOf_cons (load : Nat × Nat) (rest : List (Nat × Nat)) :
    largestOf (load :: rest) = max load.2 (largestOf rest) := rfl

theorem largestOf_le_iff {loads : List (Nat × Nat)} :
    largestOf loads ≤ bound ↔ ∀ load ∈ loads, load.2 ≤ bound := by
  induction loads with
  | nil => simp
  | cons first rest ih => rw [largestOf_cons, Nat.max_le, ih, List.forall_mem_cons]

/-- **A checked fold over segments computes the formula**, if each of its steps adds one load. -/
theorem tryFold_loads {α : Type} {step : Nat × Nat → α → Except Error (Nat × Nat)}
    {load : α → Nat × Nat}
    (adds : ∀ reserve item next, step reserve item = .ok next ↔
      next = (reserve.1 + entryBytes (load item).1, max reserve.2 (load item).2) ∧
        next.1 ≤ wordMax ∧ Countable (load item))
    {items : List α} {start final : Nat × Nat} (short : start.1 ≤ wordMax) :
    tryFold step start items = .ok final ↔
      final = (start.1 + entriesOf (items.map load), max start.2 (largestOf (items.map load))) ∧
        final.1 ≤ wordMax ∧ ∀ item ∈ items, Countable (load item) := by
  induction items generalizing start with
  | nil =>
    simp only [tryFold_nil, Except.ok.injEq, List.map_nil, entriesOf_nil, largestOf_nil,
      Nat.add_zero, Nat.max_zero, List.not_mem_nil, false_implies, implies_true, and_true]
    constructor
    · rintro rfl
      exact ⟨rfl, short⟩
    · exact fun same => same.1.symm
  | cons item rest ih =>
    rw [tryFold_cons, bind_eq_ok]
    simp only [List.map_cons, entriesOf_cons, largestOf_cons, List.forall_mem_cons]
    constructor
    · rintro ⟨next, stepped, folded⟩
      obtain ⟨rfl, bounded, countable⟩ := (adds start item next).mp stepped
      obtain ⟨rfl, fits, others⟩ := (ih bounded).mp folded
      refine ⟨Prod.ext ?_ ?_, fits, countable, others⟩
      · exact Nat.add_assoc _ _ _
      · exact Nat.max_assoc _ _ _
    · rintro ⟨rfl, fits, countable, others⟩
      have fits : start.1 + (entryBytes (load item).1 + entriesOf (rest.map load)) ≤ wordMax := fits
      have bounded : start.1 + entryBytes (load item).1 ≤ wordMax := by omega
      refine ⟨_, (adds start item _).mpr ⟨rfl, bounded, countable⟩, (ih bounded).mpr ⟨?_, fits, others⟩⟩
      exact Prod.ext (Nat.add_assoc _ _ _).symm (Nat.max_assoc _ _ _).symm

theorem checkpointReserve_eq_some_iff :
    Storage.checkpointReserve streams = some bytes ↔
      bytes = checkpointBytes streams ∧ bytes ≤ wordMax := by
  simp only [Storage.checkpointReserve, Option.bind_eq_bind, Option.bind_eq_some_iff,
    checkedAdd_eq_some, checkedMul_eq_some, checkpointBytes]
  constructor
  · rintro ⟨_, ⟨rfl, -⟩, _, ⟨rfl, -⟩, rfl, fits⟩
    exact ⟨rfl, fits⟩
  · rintro ⟨rfl, fits⟩
    exact ⟨_, ⟨rfl, by omega⟩, _, ⟨rfl, by omega⟩, rfl, fits⟩

theorem addSegmentReserve_eq_some_iff {checkpoint records : Nat} :
    addSegmentReserve checkpoint records = some bytes ↔
      bytes = checkpoint + entryBytes records ∧ bytes ≤ wordMax := by
  simp only [addSegmentReserve, Option.bind_eq_bind, Option.bind_eq_some_iff, checkedAdd_eq_some,
    checkedMul_eq_some, entryBytes]
  constructor
  · rintro ⟨_, ⟨rfl, -⟩, _, ⟨rfl, -⟩, rfl, fits⟩
    exact ⟨by omega, fits⟩
  · rintro ⟨rfl, fits⟩
    exact ⟨_, ⟨rfl, by omega⟩, _, ⟨rfl, by omega⟩, by omega, fits⟩

theorem largestManifestGroup_eq_ok_iff {config : Config} :
    Storage.largestManifestGroup config streams = .ok bytes ↔
      bytes = groupReserve config streams ∧ bytes ≤ wordMax := by
  have header : manifestFrameHeaderLen = 48 := rfl
  simp only [Storage.largestManifestGroup, maximalReleaseFrame, bind_eq_ok,
    orError_eq_ok, Option.bind_eq_bind, Option.bind_eq_some_iff, checkedAdd_eq_some,
    checkedMul_eq_some, toWord_eq_some, pure_eq_ok, groupReserve]
  constructor
  · rintro ⟨_, ⟨rfl, -⟩, _, ⟨_, ⟨rfl, -⟩, _, ⟨rfl, -⟩, rfl, release⟩, _, ⟨rfl, -⟩, _, ⟨rfl, -⟩, _,
      ⟨rfl, removal⟩, rfl⟩
    refine ⟨rfl, max_le (max_le release ?_) removal⟩
    omega
  · rintro ⟨rfl, fits⟩
    obtain ⟨release, removal⟩ := Nat.max_le.mp fits
    obtain ⟨release, -⟩ := Nat.max_le.mp release
    exact ⟨_, ⟨rfl, by omega⟩, _, ⟨_, ⟨rfl, by omega⟩, _, ⟨rfl, by omega⟩, rfl, release⟩, _,
      ⟨rfl, by omega⟩, _, ⟨rfl, by omega⟩, _, ⟨rfl, removal⟩, rfl⟩

theorem addHeadroom_eq_ok {reserve next : Nat × Nat} {segment : Segment} :
    Storage.addHeadroom reserve segment = .ok next ↔
      next = (reserve.1 + entryBytes segment.load.1, max reserve.2 segment.load.2) ∧
        next.1 ≤ wordMax ∧ Countable segment.load := by
  simp only [Storage.addHeadroom, bind_eq_ok, orError_eq_ok, toWord_eq_some,
    checkedMul_eq_some, Option.bind_eq_bind, Option.bind_eq_some_iff, checkedAdd_eq_some,
    pure_eq_ok, Segment.load, Segment.uniqueStreamCount, Countable, entryBytes]
  constructor
  · rintro ⟨_, ⟨rfl, records⟩, _, ⟨rfl, -⟩, _, ⟨_, ⟨rfl, -⟩, rfl, fits⟩, _, ⟨rfl, streams⟩, rfl⟩
    exact ⟨Prod.ext (Nat.add_assoc _ _ _) rfl, fits, records, streams⟩
  · rintro ⟨rfl, fits, records, streams⟩
    have fits : reserve.1 + (72 + divCeil segment.records.length 64 * 8) ≤ wordMax := fits
    exact ⟨_, ⟨rfl, records⟩, _, ⟨rfl, by omega⟩, _, ⟨_, ⟨rfl, by omega⟩, rfl, by omega⟩, _,
      ⟨rfl, streams⟩, Prod.ext (Nat.add_assoc _ _ _) rfl⟩

namespace Storage

/-- The loads of the segments, in the order of their identities. -/
def loads (storage : Storage) : List (Nat × Nat) := (Maps.values storage.segments).map Segment.load

/-- The part of the reserve for the next checkpoint. -/
def reservedCheckpoint (storage : Storage) : Nat :=
  checkpointBytes storage.streams.size + entriesOf storage.loads

/-- The part of the reserve for the next group of frames. -/
def reservedGroup (storage : Storage) : Nat := groupReserve storage.config (largestOf storage.loads)

/-- The part of the reserve for the footer of the active segment. -/
def reservedFooter (storage : Storage) : Nat :=
  if storage.activeSegment.isSome then segmentFooterLen else 0

/-- **The reserve is the formula**, where nothing overflows. -/
theorem maintenanceHeadroomBytes_eq_ok {storage : Storage} {headroom : Nat} :
    storage.maintenanceHeadroomBytes = .ok headroom ↔
      headroom = reserveOf storage.config storage.streams.size storage.loads storage.reservedFooter ∧
        headroom ≤ wordMax ∧ ∀ load ∈ storage.loads, Countable load := by
  simp only [maintenanceHeadroomBytes, bind_eq_ok, orError_eq_ok, Option.bind_eq_bind,
    Option.bind_eq_some_iff, checkedAdd_eq_some, toWord_eq_some, checkpointReserve_eq_some_iff,
    largestManifestGroup_eq_ok_iff, Prod.exists]
  have countable : (∀ load ∈ storage.loads, Countable load) ↔
      ∀ segment ∈ Maps.values storage.segments, Countable segment.load := by
    simp [loads]
  rw [countable]
  have computes := fun final => @tryFold_loads _ addHeadroom Segment.load
    (fun _ _ _ => addHeadroom_eq_ok) (Maps.values storage.segments)
    (checkpointBytes storage.streams.size, 0) final
  constructor
  · rintro ⟨_, ⟨rfl, -⟩, _, ⟨rfl, short⟩, checkpoint, streams, folded, _, ⟨rfl, -⟩, _, ⟨rfl, -⟩, rfl,
      fits⟩
    obtain ⟨same, -, counts⟩ := (computes _ short).mp folded
    obtain ⟨rfl, rfl⟩ := Prod.mk.inj same
    rw [Nat.zero_max] at fits ⊢
    exact ⟨rfl, fits, counts⟩
  · rintro ⟨rfl, fits, counts⟩
    have fits : checkpointBytes storage.streams.size + entriesOf storage.loads +
      groupReserve storage.config (largestOf storage.loads) + storage.reservedFooter ≤ wordMax := fits
    have size : storage.streams.size ≤ checkpointBytes storage.streams.size := by
      unfold checkpointBytes
      omega
    have short : checkpointBytes storage.streams.size ≤ wordMax := by omega
    refine ⟨_, ⟨rfl, by omega⟩, _, ⟨rfl, short⟩, _, _, (computes _ short).mpr ⟨rfl, ?_, counts⟩, _,
      ⟨rfl, ?_⟩, _, ⟨rfl, ?_⟩, ?_, fits⟩
    · show checkpointBytes storage.streams.size + entriesOf storage.loads ≤ wordMax
      omega
    · rw [Nat.zero_max]
      show groupReserve storage.config (largestOf storage.loads) ≤ wordMax
      omega
    · rw [Nat.zero_max]
      show checkpointBytes storage.streams.size + entriesOf storage.loads +
        groupReserve storage.config (largestOf storage.loads) ≤ wordMax
      omega
    · rw [Nat.zero_max]
      rfl

end Storage

/-! ### Checkpoints -/

/-- Released flags are assigned to the records. -/
def Storage.withFlags (storage : Storage) (flags : Nat → Nat → Bool) : Storage :=
  { storage with
    segments := storage.segments.map fun segmentId segment =>
      { segment with
        records := segment.records.mapIdx fun ordinal record =>
          { record with released := flags segmentId ordinal } } }

/-- **Whatever the flags, their encoding is no longer than the bitmap.** -/
theorem unitBytes_fromFlags {flags : List Bool} (bounded : flags.length ≤ wordMax) :
    72 + (Checkpoint.unitBytes (ReleaseEncoding.fromFlags flags)).length ≤
      entryBytes flags.length := by
  have words := bitmapWords_length flags
  have ranges : ∀ found : List SequenceRange,
      (found.flatMap SequenceRange.encode).length = found.length * 16 :=
    fun found => flatMap_length SequenceRange.encode_length found
  unfold ReleaseEncoding.fromFlags entryBytes
  simp only
  split
  · simp [Checkpoint.unitBytes]
  · split
    · rename_i fewer
      rw [words, saturatingMul_le_iff (divCeil_mul_le bounded)] at fewer
      rw [Checkpoint.unitBytes, ranges]
      omega
    · have length : (Checkpoint.unitBytes (.bitmap (bitmapWords flags))).length =
          (bitmapWords flags).length * 8 := flatMap_length (fun _ => word_length _) _
      rw [length, words]

theorem checkpoint_le {storage : Storage}
    (bounded : ∀ (segmentId : Nat) (segment : Segment), storage.segments[segmentId]? = some segment →
      segment.records.length ≤ wordMax) :
    storage.checkpoint.encodedLen ≤ storage.reservedCheckpoint := by
  have streams : storage.checkpoint.streamHighwaters.toList.length ≤ storage.streams.size := by
    rw [ExtTreeMap.length_toList]
    exact ExtTreeMap.size_filterMap_le_size
  have segments : (storage.checkpoint.segments.toList.map fun entry =>
      72 + (Checkpoint.unitBytes entry.2.releases).length).sum ≤ entriesOf storage.loads := by
    show ((storage.segments.map fun _ segment => segment.checkpointSegment).toList.map _).sum ≤ _
    rw [ExtTreeMap.toList_map, List.map_map, entriesOf, Storage.loads, Maps.values, List.map_map,
      List.map_map]
    refine List.sum_le_sum fun entry member => ?_
    have found := ExtTreeMap.mem_toList_iff_getElem?_eq_some.mp member
    have fits := @unitBytes_fromFlags (entry.2.records.map (·.released))
      (by rw [List.length_map]; exact bounded entry.1 entry.2 found)
    rwa [List.length_map] at fits
  unfold Checkpoint.encodedLen Storage.reservedCheckpoint checkpointBytes
  omega

theorem reservedCheckpoint_withFlags (storage : Storage) (flags : Nat → Nat → Bool) :
    (storage.withFlags flags).reservedCheckpoint = storage.reservedCheckpoint := by
  have loads : (storage.withFlags flags).loads = storage.loads := by
    show ((storage.segments.map _).toList.map Prod.snd).map Segment.load =
      (storage.segments.toList.map Prod.snd).map Segment.load
    rw [ExtTreeMap.toList_map, List.map_map, List.map_map, List.map_map]
    refine List.map_congr_left fun entry _ => ?_
    simp [Segment.load]
  rw [Storage.reservedCheckpoint, Storage.reservedCheckpoint, loads]
  rfl

/-! ### Groups of frames -/

/-- The length of the frame of a body. -/
def ManifestBody.frameLen : ManifestBody → Nat
  | .release body => 72 + body.ranges.length * 16
  | .segmentSealed _ => 80
  | .segmentRemoved body => 64 + body.highwaters.length * 16

section

variable [Hasher]

theorem encodeParts_length {body : ManifestBody} {manifestSeq : Nat} {frame : Bytes}
    (framed : ManifestFrame.encodeParts manifestSeq body = .ok frame) :
    frame.length = body.frameLen := by
  obtain ⟨-, encodedBody, encoded, -, rfl⟩ := ManifestFrame.encodeParts_eq_ok.mp framed
  have header : manifestFrameHeaderLen = 48 := rfl
  rw [List.length_append, ManifestFrame.encode_length]
  cases body with
  | release body =>
    obtain ⟨count, -, -, rfl⟩ := ManifestBody.encode_release.mp encoded
    have units := flatMap_length SequenceRange.encode_length body.ranges
    simp only [List.length_append, word_length, units, ManifestBody.frameLen]
    omega
  | segmentSealed body =>
    obtain ⟨-, rfl⟩ := ManifestBody.encode_sealed.mp encoded
    simp only [List.length_append, word_length, ManifestBody.frameLen]
    omega
  | segmentRemoved body =>
    obtain ⟨-, -, -, rfl⟩ := ManifestBody.encode_removed.mp encoded
    have units := flatMap_length StreamHighwater.encode_length body.highwaters
    simp only [List.length_append, word_length, units, ManifestBody.frameLen]
    omega

/-- **The length of a group is the sum of its frames.** -/
theorem encodeFrames_flatten_length {bodies : List ManifestBody} {next last : Nat}
    {frames : List Bytes} (encoded : encodeFrames next bodies = .ok (frames, last)) :
    frames.flatten.length = (bodies.map ManifestBody.frameLen).sum := by
  have each := encodeFrames_forall₂ encoded
  clear encoded
  induction each with
  | nil => rfl
  | cons framed _ ih =>
    obtain ⟨seq, framed⟩ := framed
    rw [List.flatten_cons, List.length_append, encodeParts_length framed, ih]
    rfl

end

/-- The frames of a release group are within the bounds of its requests. -/
theorem releaseFrames_le (storage : Storage) (earlier : List Identity) (units : List ReleaseUnit) :
    (((storage.contributions earlier units).map releaseFrame).map ManifestBody.frameLen).sum ≤
      (units.map releaseEncodedBound).sum := by
  induction units generalizing earlier with
  | nil => rfl
  | cons unit rest ih =>
    have one : (((storage.contribution earlier unit).map releaseFrame).map ManifestBody.frameLen).sum ≤
        releaseEncodedBound unit := by
      unfold Storage.contribution
      split
      · exact Nat.zero_le _
      · have ranges := coalesceSequences_length (storage.contributed earlier unit)
        have ids : (storage.contributed earlier unit).length ≤ unit.ids.length := by
          refine (List.dedup_sublist _).length_le.trans ?_
          rw [List.length_insertionSort]
          exact (List.length_filter_le _ _).trans (List.length_map _).le
        simp only [List.map_cons, List.map_nil, List.sum_cons, List.sum_nil, releaseFrame,
          ManifestBody.frameLen, releaseEncodedBound]
        omega
    have others := ih (earlier ++ namedIds [unit])
    rw [Storage.contributions, List.map_append, List.map_append, List.sum_append, List.map_cons,
      List.sum_cons]
    omega

/-- A removal frame names at most the streams of its segment. -/
theorem removalBody_le {segment : Segment}
    (unique : segment.uniqueStreams = segment.streamIds.dedup.length) (segmentId : Nat)
    (persisted : Highwaters) :
    (removalBody segment segmentId persisted).highwaters.length ≤ segment.uniqueStreams := by
  have maxima : segment.maxima.size ≤ segment.streamIds.dedup.length := by
    rw [← ExtTreeMap.length_keys]
    refine (List.subperm_of_subset ExtTreeMap.nodup_keys fun streamId member => ?_).length_le
    exact List.mem_dedup.mpr ((mem_maxima segment streamId).mp (ExtTreeMap.mem_keys.mp member))
  rw [unique]
  refine Nat.le_trans ?_ maxima
  rw [removalBody, List.length_map, ← ExtTreeMap.length_toList]
  exact List.length_filter_le _ _

theorem removalFrames_le {storage : Storage} {eligible : List Nat}
    {persisted : Highwaters} {bodies : List SegmentRemovedBody}
    (small : ∀ (segmentId : Nat) (segment : Segment), storage.segments[segmentId]? = some segment →
      segment.uniqueStreams = segment.streamIds.dedup.length ∧ segment.uniqueStreams ≤ bound)
    (planned : storage.removalBodies persisted eligible = .ok bodies) :
    ((bodies.map ManifestBody.segmentRemoved).map ManifestBody.frameLen).sum ≤
      (64 + bound * 16) * eligible.length := by
  induction eligible generalizing persisted bodies with
  | nil =>
    cases planned
    rfl
  | cons segmentId rest ih =>
    simp only [Storage.removalBodies, Storage.segmentAt, bind_eq_ok, orError_eq_ok,
      pure_eq_ok] at planned
    obtain ⟨segment, found, others, plannedRest, rfl⟩ := planned
    obtain ⟨unique, bounded⟩ := small segmentId segment found
    have first := removalBody_le unique segmentId persisted
    have later := ih plannedRest
    have total : (64 + bound * 16) * (rest.length + 1) =
        (64 + bound * 16) * rest.length + (64 + bound * 16) := Nat.mul_succ _ _
    simp only [List.map_cons, List.sum_cons, ManifestBody.frameLen]
    rw [List.length_cons, total]
    omega

/-! ### The reserve covers them all -/

section

variable [Hasher]

/-- **The reserve of a root covers the next writes of its maintenance.** -/
structure ReserveCovers (storage : Storage) : Prop where
  parts : ∀ headroom, storage.maintenanceHeadroomBytes = .ok headroom →
    headroom = storage.reservedCheckpoint + storage.reservedGroup + storage.reservedFooter ∧
      Storage.largestManifestGroup storage.config (largestOf storage.loads) =
        .ok storage.reservedGroup
  checkpoint : ∀ flags,
    (storage.withFlags flags).checkpoint.encodedLen ≤ storage.reservedCheckpoint ∧
      ∀ bytes, (storage.withFlags flags).checkpoint.encode = .ok bytes →
        bytes.length ≤ storage.reservedCheckpoint
  release : ∀ units plan, (units.map releaseEncodedBound).sum ≤
      maxBoundedReleaseGroupBytes storage.config → storage.planReleases units = .ok plan →
    ∀ first frames last, encodeFrames first plan.bodies = .ok (frames, last) →
      frames.flatten.length ≤ storage.reservedGroup
  removal : ∀ eligible persisted bodies, eligible.length ≤ automaticReclaimSegmentsPerJob →
    Eligible storage.segments eligible → storage.removalBodies persisted eligible = .ok bodies →
    ∀ first frames last, encodeFrames first (bodies.map .segmentRemoved) = .ok (frames, last) →
      frames.flatten.length ≤ storage.reservedGroup

/-- **The maintenance reserve covers every next maintenance write**, in every reachable state. -/
theorem reserve_covers {world : World} (reached : Reached world) : ReserveCovers world.storage := by
  have sound := sound_reached reached
  have balanced := balanced_reached reached
  have bounded : ∀ (segmentId : Nat) (segment : Segment),
      world.storage.segments[segmentId]? = some segment → segment.records.length ≤ wordMax := by
    intro segmentId segment found
    have long := balanced.long segmentId segment found
    have fits := balanced.fileLen_le (sound.identity_of_found found) found
    have fits : segment.fileLen ≤ world.storage.actualFileBytes := fits
    have short : world.storage.actualFileBytes ≤ wordMax := balanced.bounded
    omega
  have checkpoint : ∀ flags, (world.storage.withFlags flags).checkpoint.encodedLen ≤
      world.storage.reservedCheckpoint := by
    intro flags
    rw [← reservedCheckpoint_withFlags world.storage flags]
    refine checkpoint_le fun segmentId segment found => ?_
    have found : (world.storage.segments.map _)[segmentId]? = some segment := found
    rw [ExtTreeMap.getElem?_map, Option.map_eq_some_iff] at found
    obtain ⟨original, isOriginal, rfl⟩ := found
    rw [List.length_mapIdx]
    exact bounded segmentId original isOriginal
  refine ⟨fun headroom computed => ?_, fun flags => ⟨checkpoint flags, fun bytes encoded => ?_⟩, ?_, ?_⟩
  · obtain ⟨rfl, fits, -⟩ := Storage.maintenanceHeadroomBytes_eq_ok.mp computed
    have fits : world.storage.reservedCheckpoint + world.storage.reservedGroup +
      world.storage.reservedFooter ≤ wordMax := fits
    exact ⟨rfl, largestManifestGroup_eq_ok_iff.mpr ⟨rfl, by omega⟩⟩
  · rw [Checkpoint.encode_length encoded]
    exact checkpoint flags
  · intro units plan within planned first frames last encoded
    obtain ⟨-, -, bodies⟩ := planReleases_eq_ok planned
    rw [encodeFrames_flatten_length encoded, bodies]
    have bound : maxBoundedReleaseGroupBytes world.storage.config ≤ world.storage.reservedGroup :=
      (min_le_right _ _).trans ((le_max_left _ _).trans (le_max_left _ _))
    exact (releaseFrames_le world.storage [] units).trans (within.trans bound)
  · intro eligible persisted bodies few isEligible planned first frames last encoded
    rw [encodeFrames_flatten_length encoded]
    have small : ∀ (segmentId : Nat) (segment : Segment),
        world.storage.segments[segmentId]? = some segment →
          segment.uniqueStreams = segment.streamIds.dedup.length ∧
            segment.uniqueStreams ≤ largestOf world.storage.loads := by
      intro segmentId segment found
      have member : segment.load ∈ world.storage.loads :=
        List.mem_map_of_mem (Maps.mem_values.mpr ⟨segmentId, found⟩)
      exact ⟨balanced.unique segmentId segment found, largestOf_le_iff.mp le_rfl _ member⟩
    have total := removalFrames_le small planned
    exact total.trans ((Nat.mul_le_mul_left _ few).trans (le_max_right _ _))

end

/-- A root with one segment: what its reserve consists of. -/
theorem reserve_covers_sample : ∃ appended : World,
    appended.storage.segments.size = 1 ∧ appended.storage.reservedCheckpoint = 176 ∧
      @ReserveCovers Hasher.fnv appended.storage := by
  have evaluated : (Sample.run .sample [Sample.append [Sample.unit 1]]).any (fun appended =>
      decide (appended.storage.segments.size = 1 ∧ appended.storage.reservedCheckpoint = 176)) =
        true := by
    decide +kernel
  obtain ⟨appended, isRun, checked⟩ := exists_of_any evaluated
  obtain ⟨one, reserved⟩ := of_decide_eq_true checked
  exact ⟨appended, one, reserved,
    @reserve_covers Hasher.fnv appended (Sample.reached_of_run isRun)⟩

end Camus
