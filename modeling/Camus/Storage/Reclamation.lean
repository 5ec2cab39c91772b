/-
**Reclamation.**

`reclaim` seals the active segment if it is drained, removes sealed segments without unreleased
records in batches, and compacts the manifest. Here: what one call removes and what it leaves, that a
call with work to do removes a segment, and what a call that removes the last segment leaves on the
disk.

* `Shrinks` — some segments and the names of their files are gone, the others and the streams are as
  before; kept by every batch
  (`shrinks_reclaimBatch`) and so by all of them (`shrinks_reclaimBatches`).
* `drained_sealDrained` — after the first step no active segment is without unreleased records, so a
  segment without unreleased records is sealed and hence eligible.
* `reclamation` — the parts of the result for one call; `reclaim_safe_and_progressing` — for the
  reachable states.
-/

import Camus.Storage.OnDisk

set_option linter.unusedSectionVars false

namespace Camus

open Codec Checked Disk FaultIo Result Std

variable {eligible : List Nat} {segmentId : Nat} {report : ReclaimReport} {segment : Segment}
  {value : Unit}

/-! ### What a batch leaves -/

/-- A stream but for what the manifest has persisted of it. -/
def StreamState.logical (stream : StreamState) : StreamState :=
  { stream with persistedHighwater := none }

/-- The streams agree in their high-waters, pending records and counters. -/
def SameStreams (streams final : StreamMap) : Prop :=
  ∀ streamId : StreamId, final[streamId]?.map StreamState.logical =
    streams[streamId]?.map StreamState.logical

theorem SameStreams.trans {streams middle final : StreamMap} (first : SameStreams streams middle)
    (second : SameStreams middle final) : SameStreams streams final :=
  fun streamId => (second streamId).trans (first streamId)

/-- The counters of streams and pending records. -/
def Storage.counters (storage : Storage) : Nat × Nat × Nat :=
  (storage.durableStreams, storage.pendingRecords, storage.pendingPayloadBytes)

/-- Some segments are gone, and so are the names of their files; the other segments, the streams and
their counters, the other names and the bytes of all files but the log are as before. -/
structure Shrinks (world final : World) (gone : List Nat) : Prop where
  segments : ∀ segmentId : Nat, final.storage.segments[segmentId]? =
    if segmentId ∈ gone then none else world.storage.segments[segmentId]?
  size : final.storage.segments.size + gone.length = world.storage.segments.size
  streams : SameStreams world.storage.streams final.storage.streams
  counters : final.storage.counters = world.storage.counters
  names : ∀ segmentId : Nat, segmentsDirectory.lookup (.log segmentId) final.fs =
    if segmentId ∈ gone then none else segmentsDirectory.lookup (.log segmentId) world.fs
  log : final.storage.manifest.file = world.storage.manifest.file
  content : ∀ file, file ≠ world.storage.manifest.file → final.fs.content file = world.fs.content file

theorem Shrinks.refl (world : World) : Shrinks world world [] :=
  ⟨fun _ => by simp, rfl, fun _ => rfl, rfl, fun _ => by simp, rfl, fun _ _ => rfl⟩

theorem Shrinks.trans {world middle final : World} {first second : List Nat}
    (before : Shrinks world middle first) (after : Shrinks middle final second) :
    Shrinks world final (first ++ second) where
  segments segmentId := by
    rw [after.segments, before.segments]
    by_cases inFirst : segmentId ∈ first <;> by_cases inSecond : segmentId ∈ second <;>
      simp [inFirst, inSecond]
  size := by
    have := before.size
    have := after.size
    rw [List.length_append]
    omega
  streams := before.streams.trans after.streams
  counters := after.counters.trans before.counters
  names segmentId := by
    rw [after.names, before.names]
    by_cases inFirst : segmentId ∈ first <;> by_cases inSecond : segmentId ∈ second <;>
      simp [inFirst, inSecond]
  log := after.log.trans before.log
  content file different :=
    (after.content file (before.log ▸ different)).trans (before.content file different)

theorem shrinks_dropSegment {world : World} {dropped : Storage}
    (drops : world.storage.dropSegment segmentId = .ok dropped) :
    Shrinks world ⟨dropped, segmentsDirectory.change (.unlink (.log segmentId)) world.fs⟩
      [segmentId] := by
  obtain ⟨segment, count, bytes, found, -, -, rfl⟩ := Storage.dropSegment_eq_ok.mp drops
  have member : segmentId ∈ world.storage.segments :=
    Maps.mem_iff_found.mpr ⟨_, found⟩
  refine ⟨fun otherId => ?_, ?_, fun _ => rfl, rfl, fun otherId => ?_, rfl, fun _ _ => rfl⟩
  · show (world.storage.segments.erase segmentId)[otherId]? = _
    rw [ExtTreeMap.getElem?_erase]
    simp only [LawfulEqOrd.compare_eq_iff_eq, List.mem_singleton, @eq_comm _ segmentId]
  · have positive : world.storage.segments.size ≠ 0 := by
      intro empty
      rw [ExtTreeMap.eq_empty_iff_size_eq_zero.mpr empty] at member
      simp at member
    show (world.storage.segments.erase segmentId).size + 1 = _
    rw [ExtTreeMap.size_erase, if_pos (ExtTreeMap.mem_iff_contains.mp member)]
    omega
  · refine (lookup_unlink _ _).trans ?_
    simp only [List.mem_singleton]

theorem sameStreams_persistHighwater {storage next : Storage} {highwater : StreamHighwater}
    (persisted : storage.persistHighwater highwater = .ok next) :
    next.segments = storage.segments ∧ SameStreams storage.streams next.streams ∧
      next.counters = storage.counters := by
  obtain ⟨stream, found, rfl⟩ := Storage.persistHighwater_eq_ok.mp persisted
  refine ⟨rfl, fun streamId => ?_, rfl⟩
  exact Maps.map_getElem?_insert found rfl

theorem unreleasedCount_eq_zero :
    segment.unreleasedCount = 0 ↔ ∀ record ∈ segment.records, record.released = true := by
  simp [Segment.unreleasedCount, List.countP_eq_zero]

section

variable [Hasher] {world final : World}

theorem shrinks_removeSegments {lengths : List Nat}
    (returned : Returns (removeSegments eligible) world lengths final) :
    Shrinks world final eligible ∧ lengths.length = eligible.length := by
  induction eligible generalizing world lengths with
  | nil =>
    obtain ⟨rfl, rfl⟩ := Returns.result returned
    exact ⟨.refl _, rfl⟩
  | cons segmentId rest ih =>
    obtain ⟨segment, dropped, fs, removed, -, drops, rfl, rfl, removes⟩ :=
      returns_removeSegments_cons returned
    obtain ⟨shrinks, counted⟩ := ih removes
    exact ⟨(shrinks_dropSegment drops).trans shrinks, by rw [List.length_cons, counted, List.length_cons]⟩

/-- A batch removes its segments and nothing else, and reports how many they are. -/
theorem shrinks_reclaimBatch (returned : Returns (reclaimBatch eligible) world report final) :
    Shrinks world final eligible ∧ (eligible ≠ [] → report.segments ≠ 0) := by
  rcases returns_reclaimBatch returned with ⟨rfl, -, rfl⟩ |
    ⟨bodies, manifest, fs, bytes, persisted, removed, maintenance, afterRemoval, -, appended, -, folded,
      removes, rfl, -, synced, left⟩
  · exact ⟨.refl _, fun some => absurd rfl some⟩
  · obtain ⟨sameSegments, sameStreams, sameCounters⟩ := tryFold_induction
      (fun total : Storage => total.segments = world.storage.segments ∧
        SameStreams world.storage.streams total.streams ∧ total.counters = world.storage.counters)
      (by exact ⟨rfl, fun _ => rfl, rfl⟩)
      (fun _ _ _ _ before stepped => by
        obtain ⟨same, kept, counters⟩ := sameStreams_persistHighwater stepped
        exact ⟨same.trans before.1, before.2.1.trans kept, counters.trans before.2.2⟩) folded
    have manifestFile : persisted.manifest.file = manifest.file := by
      rw [(persisting_tryFold folded).2]
    obtain ⟨sameFile, -, directory, others⟩ := frame_appendGroup appended
    -- the frames of the batch go to the log, before the names are removed
    have announced : Shrinks world ⟨persisted, fs⟩ [] :=
      ⟨fun _ => by rw [sameSegments]; simp, by rw [sameSegments]; rfl, sameStreams, sameCounters,
        fun _ => by rw [lookup_of_segments directory]; simp, manifestFile.trans sameFile, others⟩
    obtain ⟨shrinks, counted⟩ := shrinks_removeSegments removes
    have whole := announced.trans shrinks
    refine ⟨⟨by rw [left]; exact whole.segments, by rw [left]; exact whole.size,
      by rw [left]; exact whole.streams, by rw [left]; exact whole.counters, fun segmentId => ?_,
      by rw [left]; exact whole.log, by rw [synced]; exact whole.content⟩, fun some => ?_⟩
    · refine .trans ?_ (whole.names segmentId)
      rw [synced]
      exact congrArg (·[SegmentName.log segmentId]?) Directory.entries_sync
    · have positive := List.length_pos_iff.mpr some
      simp only [saturatingWord]
      unfold wordMax
      omega

/-- Batches one after the other. -/
theorem shrinks_reclaimBatches {batches : List (List Nat)} {start : ReclaimReport}
    (returned : Returns (reclaimBatches start batches) world report final) :
    Shrinks world final batches.flatten ∧
      ((start.segments ≠ 0 ∨ batches.flatten ≠ []) → report.segments ≠ 0) := by
  induction batches generalizing world start with
  | nil =>
    obtain ⟨rfl, rfl⟩ := Returns.result returned
    exact ⟨.refl _, fun some => by simpa using some⟩
  | cons batch rest ih =>
    obtain ⟨reclaimed, middle, reclaims, returned⟩ := returned.bind
    obtain ⟨first, counted⟩ := shrinks_reclaimBatch reclaims
    obtain ⟨later, total⟩ := ih returned
    refine ⟨first.trans later, fun some => total ?_⟩
    rw [List.flatten_cons] at some
    by_cases none : rest.flatten = []
    · refine .inl ?_
      have one : start.segments ≠ 0 ∨ reclaimed.segments ≠ 0 := by
        rcases some with started | some
        · exact .inl started
        · exact .inr (counted fun empty => some (by rw [empty, none]; rfl))
      simp only [saturatingAdd]
      unfold wordMax
      omega
    · exact .inr none

/-! ### What a reclamation removes -/

theorem chunks_flatten {α : Type} {size : Nat} (positive : 0 < size) {fuel : Nat} {items : List α}
    (enough : items.length ≤ fuel) : (chunks size fuel items).flatten = items := by
  induction fuel generalizing items with
  | zero => exact (List.length_eq_zero_iff.mp (Nat.le_zero.mp enough)).symm
  | succ fuel ih =>
    cases items with
    | nil => rfl
    | cons item rest =>
      have shorter : ((item :: rest).drop size).length ≤ fuel := by
        rw [List.length_drop]
        rw [List.length_cons] at enough ⊢
        omega
      rw [chunks, List.flatten_cons, ih shorter, List.take_append_drop]
      exact List.cons_ne_nil item rest

/-- A seal changes no record and no count of a segment. -/
theorem Seals.kept (seals : Seals world final) :
    final.storage.segments.size = world.storage.segments.size ∧
      final.storage.streams = world.storage.streams ∧
      ∀ segmentId : Nat, final.storage.segments[segmentId]?.map
        (fun segment => (segment.records, segment.unreleasedRecords)) =
          world.storage.segments[segmentId]?.map
            (fun segment => (segment.records, segment.unreleasedRecords)) := by
  rcases seals with rfl | ⟨sealedId, reason, -, seals⟩
  · exact ⟨rfl, rfl, fun _ => rfl⟩
  · obtain ⟨segment, sealed, footer, manifest, bytes, first, last, found, sealedBy, -, -, -, rfl⟩ :=
      returns_sealSegment seals
    obtain ⟨isSealed, -⟩ := returns_sealData sealedBy
    have member : sealedId ∈ world.storage.segments :=
      Maps.mem_iff_found.mpr ⟨_, found⟩
    refine ⟨?_, rfl, fun segmentId => ?_⟩
    · show (world.storage.segments.insert sealedId sealed).size = _
      rw [ExtTreeMap.size_insert, if_pos (ExtTreeMap.mem_iff_contains.mp member)]
    · exact Maps.map_getElem?_insert found (by rw [isSealed])

/-- After its first step a reclamation finds no active segment without unreleased records. -/
theorem drained_sealDrained (returned : Returns sealDrained world value final) {active : Nat}
    (isActive : final.storage.activeSegment = some active)
    (found : final.storage.segments[active]? = some segment) : segment.unreleasedRecords ≠ 0 := by
  have returned := Returns.bind_getStorage returned
  split at returned
  · rename_i none
    obtain ⟨-, rfl⟩ := Returns.result returned
    rw [none] at isActive
    cases isActive
  · rename_i before wasActive
    obtain ⟨old, isOld, returned⟩ := returned.bind_ofExcept
    split at returned
    · rcases returns_sealActive returned with ⟨none, rfl⟩ | ⟨segmentId, -, seals⟩
      · rw [none] at wasActive
        cases wasActive
      · obtain ⟨_, _, _, _, _, _, _, -, -, -, -, -, rfl⟩ := returns_sealSegment seals
        cases isActive
    · rename_i left
      obtain ⟨-, rfl⟩ := Returns.result returned
      obtain rfl : before = active := Option.some.inj (wasActive.symm.trans isActive)
      cases (orError_eq_ok.mp isOld).symm.trans found
      exact left

theorem mem_eligibleSegments {storage : Storage} :
    segmentId ∈ storage.eligibleSegments ↔
      ∃ segment, storage.segments[segmentId]? = some segment ∧ segment.isReclaimable = true := by
  simp only [Storage.eligibleSegments, List.mem_map, List.mem_filter,
    ExtTreeMap.mem_toList_iff_getElem?_eq_some, Prod.exists]
  exact ⟨fun ⟨_, segment, entry, same⟩ => ⟨segment, same ▸ entry⟩, fun ⟨segment, entry⟩ =>
    ⟨segmentId, segment, entry, rfl⟩⟩

/-- A segment without unreleased records is eligible once a drained active segment is sealed. -/
theorem eligible_of_drained (sound : world.storage.indexView.Sound)
    (returned : Returns sealDrained world value final)
    (found : final.storage.segments[segmentId]? = some segment)
    (drained : segment.unreleasedRecords = 0) : segmentId ∈ final.storage.eligibleSegments := by
  refine mem_eligibleSegments.mpr ⟨segment, found, ?_⟩
  cases footer : segment.footer with
  | none =>
    have sealedSound := sound_seals sound (returns_sealDrained returned)
    exact absurd drained (drained_sealDrained returned (sealedSound.isActive segmentId segment found
      footer) found)
  | some _ => simp [Segment.isReclaimable, footer, drained]

/-- The test for work says whether some segment holds no unreleased record. -/
theorem hasAutomaticReclaimWork_eq (sound : world.storage.indexView.Sound) :
    ∃ work, world.storage.hasAutomaticReclaimWork = .ok work ∧ (work = true ↔
      ∃ (segmentId : Nat) (segment : Segment),
        world.storage.segments[segmentId]? = some segment ∧ segment.unreleasedRecords = 0) := by
  have counter : world.storage.reclaimableSegments = _ := sound.reclaimable
  unfold Storage.hasAutomaticReclaimWork
  by_cases some : world.storage.reclaimableSegments = 0
  · rw [if_neg (not_not.mpr some)]
    have unsealed : ∀ (segmentId : Nat) (segment : Segment),
        world.storage.segments[segmentId]? = .some segment → segment.unreleasedRecords = 0 →
          segment.footer = none := by
      intro segmentId segment found drained
      rw [some, reclaimableCount, eq_comm, List.countP_eq_zero] at counter
      have none := counter segmentId (List.mem_range.mpr (sound.identity_of_found found))
      have found : world.storage.indexView.segments[segmentId]? = _ := found
      rw [found] at none
      simpa [Segment.isReclaimable, drained] using none
    cases active : world.storage.activeSegment with
    | none =>
      refine ⟨false, rfl, iff_of_false Bool.false_ne_true ?_⟩
      rintro ⟨segmentId, segment, found, drained⟩
      cases active.symm.trans (sound.isActive segmentId segment found
        (unsealed segmentId segment found drained))
    | some activeId =>
      obtain ⟨segment, found, -⟩ := sound.isOpen activeId active
      refine ⟨decide (segment.unreleasedRecords = 0), ?_, ?_⟩
      · simp only [Storage.segmentAt]
        rw [show world.storage.segments[activeId]? = _ from found]
        rfl
      · rw [decide_eq_true_eq]
        refine ⟨fun drained => ⟨activeId, segment, found, drained⟩, ?_⟩
        rintro ⟨segmentId, other, isOther, drained⟩
        cases active.symm.trans (sound.isActive segmentId other isOther
          (unsealed segmentId other isOther drained))
        cases isOther.symm.trans found
        exact drained
  · rw [if_pos some]
    refine ⟨true, rfl, iff_of_true rfl ?_⟩
    have positive := Nat.pos_of_ne_zero some
    rw [counter, reclaimableCount, List.countP_pos_iff] at positive
    obtain ⟨segmentId, -, reclaimable⟩ := positive
    obtain ⟨segment, found, reclaimable⟩ := exists_of_any reclaimable
    simp only [Segment.isReclaimable, Bool.and_eq_true, decide_eq_true_eq] at reclaimable
    exact ⟨segmentId, segment, found, reclaimable.2⟩

/-! ### One call -/

/-- The files of a root whose manifest was just compacted: the log holds no frame, the checkpoint
holds the high-water of every stream. -/
structure Compacted (world : World) : Prop where
  checkpoint : ∃ file, rootDirectory.lookup .checkpoint world.fs = some file ∧
    world.storage.checkpoint.encode = .ok (world.fs.content file)
  highwaters : ∀ streamId : StreamId, world.storage.checkpoint.streamHighwaters[streamId]? =
    world.storage.streams[streamId]?.bind (·.highwater)
  log : rootDirectory.lookup .manifestLog world.fs = some world.storage.manifest.file
  noFrames : world.fs.content world.storage.manifest.file = ManifestLogHeader.encode
    ⟨world.storage.rootId, saturatingAdd world.storage.manifest.lastSeq 1⟩
  logLen : world.storage.manifest.logLen = manifestLogHeaderLen

theorem compacted_compactManifest (returned : Returns compactManifest world value final) :
    Compacted final ∧ SameStreams world.storage.streams final.storage.streams ∧
      final.storage.segments = world.storage.segments ∧ final.fs.segments = world.fs.segments := by
  obtain ⟨manifest, fs, bytes, maintenance, compacts, -, rfl⟩ := returns_compactManifest returned
  obtain ⟨encoded, middle, isEncoded, -, -, first, second, rfl⟩ := returns_compact compacts
  have sameHighwaters : (world.storage.streams.map fun _ (stream : StreamState) =>
      { stream with persistedHighwater := stream.highwater }).filterMap
        (fun _ stream => stream.highwater) =
          world.storage.streams.filterMap fun _ stream => stream.highwater := by
    refine ExtTreeMap.ext_getElem? fun streamId => ?_
    rw [ExtTreeMap.getElem?_filterMap, ExtTreeMap.getElem?_filterMap,
      ExtTreeMap.getElem?_map]
    cases world.storage.streams[streamId]? <;> rfl
  have found : rootDirectory.lookup .checkpoint fs = some world.fs.nodes.length :=
    (second.names .checkpoint (by decide) (by decide)).trans first.found
  have content : fs.content world.fs.nodes.length = encoded := by
    rw [second.content (by rw [first.created]; omega), first.holds.content]
  refine ⟨⟨⟨world.fs.nodes.length, found, ?_⟩, fun streamId => ?_, second.found,
    second.holds.content, rfl⟩, fun streamId => ?_, rfl, second.segments.trans first.segments⟩
  · simp only [content, Storage.checkpoint, sameHighwaters]
    exact isEncoded
  · simp only [Storage.checkpoint, checkpointFromState]
    rw [ExtTreeMap.getElem?_filterMap, ExtTreeMap.getElem?_map]
    cases world.storage.streams[streamId]? <;> rfl
  · show (world.storage.streams.map _)[streamId]?.map _ = _
    rw [ExtTreeMap.getElem?_map, Option.map_map]
    rfl

/-- **What one reclamation does**: `gone` are the segments it removed. -/
structure Reclamation (kind : ReclaimKind) (world final : World) (gone : List Nat) : Prop where
  /-- Only segments without unreleased records are removed. -/
  released : ∀ segmentId ∈ gone, ∃ segment, world.storage.segments[segmentId]? = some segment ∧
    ∀ record ∈ segment.records, record.released = true
  /-- Their files have lost their names. -/
  removed : ∀ segmentId ∈ gone, segmentsDirectory.lookup (.log segmentId) final.fs = none
  /-- Every other segment keeps its file with the bytes in it; a seal of the active one adds the
  footer. -/
  files : ∀ (segmentId : Nat) (segment : Segment), segmentId ∉ gone →
    world.storage.segments[segmentId]? = some segment →
      segmentsDirectory.lookup (.log segmentId) final.fs = some segment.file ∧
        (final.fs.content segment.file = world.fs.content segment.file ∨
          world.storage.activeSegment = some segmentId ∧
            ∃ footer bytes, final.storage.segments[segmentId]?.bind (·.footer) = some footer ∧
              footer.encode = .ok bytes ∧
              final.fs.content segment.file = world.fs.content segment.file ++ bytes)
  /-- Every other segment stays, with its records. -/
  kept : ∀ segmentId : Nat, final.storage.segments[segmentId]?.map (·.records) =
    if segmentId ∈ gone then none else world.storage.segments[segmentId]?.map (·.records)
  size : final.storage.segments.size + gone.length = world.storage.segments.size
  streams : SameStreams world.storage.streams final.storage.streams
  automatic : kind = .automatic → gone.length ≤ automaticReclaimSegmentsPerJob
  explicit : kind = .explicit → ∀ (segmentId : Nat) (segment : Segment),
    final.storage.segments[segmentId]? = some segment →
      ∃ record ∈ segment.records, record.released = false
  progress : world.storage.hasAutomaticReclaimWork = .ok true → gone ≠ []
  last : gone ≠ [] → final.storage.segments.isEmpty = true → Compacted final

/-- What the seal of a drained active segment leaves on the disk. -/
theorem disk_seals (reached : Reached world) (seals : Seals world final) :
    (∃ file, Stored final file) ∧ final.fs.segments = world.fs.segments ∧
      ∀ (segmentId : Nat) (segment : Segment), world.storage.segments[segmentId]? = some segment →
        final.fs.content segment.file = world.fs.content segment.file ∨
          world.storage.activeSegment = some segmentId ∧
            ∃ footer bytes, final.storage.segments[segmentId]?.bind (·.footer) = some footer ∧
              footer.encode = .ok bytes ∧
              final.fs.content segment.file = world.fs.content segment.file ++ bytes := by
  obtain ⟨file, stored⟩ := stored_reached reached
  rcases seals with rfl | ⟨sealedId, reason, active, seals⟩
  · exact ⟨⟨file, stored⟩, rfl, fun _ _ _ => .inl rfl⟩
  · obtain ⟨stored, directory, content⟩ := stored_sealSegment stored (sound_reached reached)
      (balanced_reached reached) active seals
    refine ⟨⟨file, stored⟩, directory, fun segmentId segment found => ?_⟩
    refine (content segmentId segment found).imp_right fun sealed => ?_
    exact ⟨by rw [sealed.1]; exact active, sealed.2⟩

theorem reclamation {kind : ReclaimKind} (reached : Reached world)
    (returned : Returns (reclaim kind) world report final) :
    ∃ gone, Reclamation kind world final gone := by
  have sound := sound_reached reached
  obtain ⟨sealed, reclaimed, compacted, maintenance, seals, reclaims, compacts, rfl⟩ :=
    returns_reclaim_parts returned
  obtain ⟨sealedSize, sealedStreams, sealedSegments⟩ := (returns_sealDrained seals).kept
  have sealedSound := sound_seals sound (returns_sealDrained seals)
  obtain ⟨shrinks, counted⟩ := shrinks_reclaimBatches reclaims
  rw [chunks_flatten (by decide) (Nat.le_refl _)] at shrinks counted
  obtain ⟨maybe, emptied⟩ := returns_compactAfterReclaim compacts
  obtain ⟨⟨file, stored⟩, directory, sealedContent⟩ := disk_seals reached (returns_sealDrained seals)
  have after : SameStreams reclaimed.storage.streams compacted.storage.streams ∧
      compacted.storage.segments = reclaimed.storage.segments ∧
      compacted.fs.segments = reclaimed.fs.segments := by
    rcases maybe with compacts | rfl
    · exact (compacted_compactManifest compacts).2
    · exact ⟨fun _ => rfl, rfl, rfl⟩
  have names : ∀ segmentId : Nat, segmentsDirectory.lookup (.log segmentId) compacted.fs =
      if segmentId ∈ kind.limit sealed.storage.eligibleSegments then none
        else segmentsDirectory.lookup (.log segmentId) world.fs := by
    intro segmentId
    rw [lookup_of_segments after.2.2, shrinks.names, lookup_of_segments directory]
  have unreleased : ∀ (segmentId : Nat) (segment : Segment),
      sealed.storage.segments[segmentId]? = some segment →
        (segment.unreleasedRecords = 0 ↔ ∀ record ∈ segment.records, record.released = true) := by
    intro segmentId segment found
    rw [sealedSound.counted segmentId segment found, unreleasedCount_eq_zero]
  refine ⟨kind.limit sealed.storage.eligibleSegments, {
    released := fun segmentId member => ?_
    removed := fun segmentId member => (names segmentId).trans (if_pos member)
    files := fun segmentId segment stays found => ?_
    kept := fun segmentId => ?_
    size := ?_
    streams := fun streamId => ?_
    automatic := ?_
    explicit := ?_
    progress := fun work none => ?_
    last := fun some empty => ?_ }⟩
  · have isEligible := (limit_sublist kind _).subset member
    obtain ⟨segment, found, reclaimable⟩ := mem_eligibleSegments.mp isEligible
    have same := sealedSegments segmentId
    rw [found, Option.map_some, eq_comm, Option.map_eq_some_iff] at same
    obtain ⟨before, isBefore, same⟩ := same
    refine ⟨before, isBefore, ?_⟩
    rw [(Prod.mk.inj same).1]
    simp only [Segment.isReclaimable, Bool.and_eq_true, decide_eq_true_eq] at reclaimable
    exact (unreleased segmentId segment found).mp reclaimable.2
  · -- the file stays through the batches, which write to the log only, and through a compaction
    have same := sealedSegments segmentId
    rw [found, Option.map_some, Option.map_eq_some_iff] at same
    obtain ⟨sealedSegment, isSealed, -⟩ := same
    have onDisk := stored.segments segmentId sealedSegment isSealed
    have linked := (names segmentId).trans (if_neg stays)
    have wasOnDisk := (stored_reached reached).choose_spec.segments segmentId segment found
    have sameFile : sealedSegment.file = segment.file := by
      have linkedSealed := onDisk.found
      rw [lookup_of_segments directory, wasOnDisk.found] at linkedSealed
      exact (Option.some.inj linkedSealed).symm
    have batches := shrinks.content sealedSegment.file (stored.control.apart onDisk).2
    have kept : compacted.fs.content segment.file = sealed.fs.content segment.file := by
      rw [← sameFile, ← batches]
      rcases maybe with compacts | rfl
      · exact content_compactManifest (onDisk.of_same ((shrinks.names segmentId).trans (if_neg stays))
          batches) compacts
      · rfl
    refine ⟨linked.trans wasOnDisk.found, ?_⟩
    show compacted.fs.content _ = _ ∨ _ ∧ ∃ footer bytes, compacted.storage.segments[segmentId]?.bind _ =
      some footer ∧ _ ∧ compacted.fs.content _ = _
    rw [kept, after.2.1, shrinks.segments, if_neg stays]
    exact sealedContent segmentId segment found
  · have same := congrArg (Option.map Prod.fst) (sealedSegments segmentId)
    rw [Option.map_map, Option.map_map] at same
    show compacted.storage.segments[segmentId]?.map _ = _
    rw [after.2.1, shrinks.segments]
    split_ifs
    · rfl
    · exact same
  · show compacted.storage.segments.size + _ = _
    rw [after.2.1, shrinks.size, sealedSize]
  · rw [← sealedStreams]
    exact (shrinks.streams.trans after.1) streamId
  · rintro rfl
    exact List.length_take_le _ _
  · rintro rfl segmentId segment found
    have found : compacted.storage.segments[segmentId]? = some segment := found
    rw [after.2.1, shrinks.segments] at found
    split_ifs at found with removed
    by_contra none
    push Not at none
    refine removed (eligible_of_drained sound seals found ((unreleased segmentId segment found).mpr ?_))
    intro record member
    simpa using none record member
  · obtain ⟨_, isWork, iff⟩ := hasAutomaticReclaimWork_eq sound
    obtain ⟨segmentId, segment, found, drained⟩ := iff.mp (Except.ok.inj (isWork.symm.trans work))
    have same := sealedSegments segmentId
    rw [found, Option.map_some, Option.map_eq_some_iff] at same
    obtain ⟨sealedSegment, isSealed, same⟩ := same
    have eligible := eligible_of_drained sound seals isSealed ((Prod.mk.inj same).2.trans drained)
    cases kind with
    | explicit =>
      have nothing : sealed.storage.eligibleSegments = [] := none
      exact absurd (nothing ▸ eligible) List.not_mem_nil
    | automatic =>
      rcases List.take_eq_nil_iff.mp none with zero | nothing
      · cases zero
      · exact absurd (nothing ▸ eligible) List.not_mem_nil
  · have isEmpty : reclaimed.storage.segments.isEmpty = true := by
      rw [← after.2.1]
      exact empty
    obtain ⟨⟨checkpoint, highwaters, log, noFrames, logLen⟩, -⟩ :=
      compacted_compactManifest (emptied (counted (.inr some)) isEmpty)
    exact ⟨checkpoint, highwaters, log, noFrames, logLen⟩

/-! ### Repeated reclamation -/

/-- Automatic reclamations one after the other, each started because there was work. -/
inductive Reclaims : Nat → World → World → Prop
  | stop (world : World) : Reclaims 0 world world
  | pass {passes : Nat} {world middle final : World} {report : ReclaimReport} :
    world.storage.hasAutomaticReclaimWork = .ok true →
    Returns (reclaim .automatic) world report middle → Reclaims passes middle final →
    Reclaims (passes + 1) world final

/-- Every pass removes a segment, so there are at most as many passes as segments. -/
theorem Reclaims.passes_le {passes : Nat} (reclaims : Reclaims passes world final)
    (reached : Reached world) :
    passes + final.storage.segments.size ≤ world.storage.segments.size := by
  induction reclaims with
  | stop world => omega
  | pass work returned _ ih =>
    obtain ⟨gone, step⟩ := reclamation reached returned
    have removed := List.length_pos_iff.mpr (step.progress work)
    have size := step.size
    have rest := ih (@Reached.operated _ (.reclaim .automatic) _ _ reached ⟨_, returned⟩)
    omega

/-- **Reclamation is safe and makes progress.** In every state that an open and operations have
reached: a reclamation removes only released segments and leaves the streams as they are
(`Reclamation`); automatic reclamations that are repeated while there is work come to an end; and
where there is no work, every segment holds an unreleased record. -/
theorem reclaim_safe_and_progressing :
    (∀ (kind : ReclaimKind) (world final : World) (report : ReclaimReport), Reached world →
      Returns (reclaim kind) world report final → ∃ gone, Reclamation kind world final gone) ∧
    (∀ (passes : Nat) (world final : World), Reached world → Reclaims passes world final →
      passes + final.storage.segments.size ≤ world.storage.segments.size) ∧
    (∀ world : World, Reached world → ∃ work, world.storage.hasAutomaticReclaimWork = .ok work ∧
      (work = false → ∀ (segmentId : Nat) (segment : Segment),
        world.storage.segments[segmentId]? = some segment →
          ∃ record ∈ segment.records, record.released = false)) := by
  refine ⟨fun kind world final report reached returned => reclamation reached returned,
    fun passes world final reached reclaims => reclaims.passes_le reached, fun world reached => ?_⟩
  have sound := sound_reached reached
  obtain ⟨work, isWork, iff⟩ := hasAutomaticReclaimWork_eq sound
  refine ⟨work, isWork, fun noWork segmentId segment found => ?_⟩
  by_contra none
  push Not at none
  have drained : segment.unreleasedRecords = 0 := by
    rw [sound.counted segmentId segment found, unreleasedCount_eq_zero]
    intro record member
    simpa using none record member
  rw [iff.mpr ⟨segmentId, segment, found, drained⟩] at noWork
  cases noWork

end

/-- Two segments, one after the other released and reclaimed: the first reclamation removes one file
and leaves the other, the second compacts the manifest. -/
theorem reclaim_safe_and_progressing_sample : ∃ (before middle after : World) (gone : List Nat),
    @Reached Hasher.fnv before ∧ @Reclamation Hasher.fnv .automatic before middle gone ∧
    0 ∈ gone ∧ 1 ∉ gone ∧ segmentsDirectory.lookup (.log 0) middle.fs = none ∧
    @Reached Hasher.fnv after ∧ @Compacted Hasher.fnv after := by
  have evaluated : (Sample.extend .sample
      [Sample.append [Sample.unit 1], Sample.append [Sample.unit 1], Sample.release 1 0]
      [.reclaim .automatic]).any (fun (before, middle) =>
        decide (before.storage.segments[0]? ≠ none ∧ middle.storage.segments[0]? = none ∧
          middle.storage.segments[1]? ≠ none) &&
        (Sample.operate middle (Sample.release 1 1)).any fun released =>
          (Sample.operate released (.reclaim .automatic)).any fun after =>
            decide (released.storage.segments.size = 1) && after.storage.segments.isEmpty) = true := by
    decide +kernel
  obtain ⟨⟨before, middle⟩, found, checked⟩ := exists_of_any evaluated
  simp only [Bool.and_eq_true, decide_eq_true_eq] at checked
  obtain ⟨⟨was, first, second⟩, checked⟩ := checked
  obtain ⟨released, releases, checked⟩ := exists_of_any checked
  obtain ⟨after, reclaims, checked⟩ := exists_of_any checked
  simp only [Bool.and_eq_true, decide_eq_true_eq] at checked
  obtain ⟨one, empty⟩ := checked
  obtain ⟨reached, runs⟩ := Sample.runs_of_extend found
  have reclamation := (@reclaim_safe_and_progressing Hasher.fnv).1 .automatic
  obtain ⟨report, isReclaimed⟩ := @Runs.returns Hasher.fnv _ _ _ runs
  obtain ⟨gone, removes⟩ := reclamation before middle report reached isReclaimed
  have isGone : 0 ∈ gone := by
    have kept := @Reclamation.kept Hasher.fnv _ _ _ _ removes 0
    by_contra stays
    rw [first, if_neg stays] at kept
    exact was (Option.map_eq_none_iff.mp kept.symm)
  have stays : 1 ∉ gone := fun isGone => by
    have kept := @Reclamation.kept Hasher.fnv _ _ _ _ removes 1
    rw [if_pos isGone] at kept
    exact second (Option.map_eq_none_iff.mp kept)
  have reachedReleased := @Reached.operated Hasher.fnv _ _ _ (@Runs.reached Hasher.fnv _ _ _ runs reached)
    (Sample.returns_of_operate releases)
  have returned := Sample.returns_of_operate reclaims
  obtain ⟨lastReport, isLast⟩ := returned
  obtain ⟨lastGone, last⟩ := reclamation released after lastReport reachedReleased isLast
  have some : lastGone ≠ [] := by
    rintro rfl
    have size := @Reclamation.size Hasher.fnv _ _ _ _ last
    rw [one, ExtTreeMap.isEmpty_iff.mp empty] at size
    cases size
  exact ⟨before, middle, after, gone, reached, removes, isGone, stays,
    @Reclamation.removed Hasher.fnv _ _ _ _ removes 0 isGone,
    @Reached.operated Hasher.fnv (.reclaim .automatic) _ _ reachedReleased ⟨_, isLast⟩,
    @Reclamation.last Hasher.fnv _ _ _ _ last some empty⟩

end Camus
