/-
**All cached aggregates of an open root are exact.**

* `Aggregates` — what the root caches, against what a recount of files, segments and streams gives.
* `Suffices` — the counters are large enough for every subtraction: releasing records, removing
  segments and replacing files never fail on a counter.
* `aggregates_exact` — both hold in every reachable state, and also between the changes an operation
  makes.
-/

import Camus.Storage.Counters

namespace Camus

open Codec Checked Disk FaultIo Result Std

variable {eligible : List Nat} {storage : Storage}

/-- The length of the file a name leads to. -/
def Fs.lengthAt {ν : Type} [Ord ν] [TransOrd ν] (fs : Fs) (place : Place ν) (name : ν) : Nat :=
  ((place.lookup name fs).map fun file => (fs.content file).length).getD 0

/-- The bytes of all files of a root: forty of `ROOT`, checkpoint, log and the live segments. -/
def World.fileBytes (world : World) : Nat :=
  40 + world.fs.lengthAt rootDirectory .checkpoint + world.fs.lengthAt rootDirectory .manifestLog +
    Maps.sum (fun segmentId (_ : Segment) => world.fs.lengthAt segmentsDirectory (.log segmentId))
      world.storage.segments

/-- A segment with a footer and no unreleased record. -/
def Segment.drainedSealed (segment : Segment) : Bool :=
  segment.footer.isSome && segment.records.all fun record => record.released

/-- **The cached aggregates against a recount.** -/
structure Aggregates (world : World) : Prop where
  files : world.storage.actualFileBytes = world.fileBytes
  named : (rootDirectory.lookup .checkpoint world.fs).isSome ∧
    (rootDirectory.lookup .manifestLog world.fs).isSome ∧
    ∀ segmentId ∈ world.storage.segments,
      (segmentsDirectory.lookup (.log segmentId) world.fs).isSome
  unreleased : ∀ (segmentId : Nat) (segment : Segment),
    world.storage.segments[segmentId]? = some segment →
      segment.unreleasedRecords = segment.records.countP fun record => !record.released
  unique : ∀ (segmentId : Nat) (segment : Segment),
    world.storage.segments[segmentId]? = some segment →
      segment.uniqueStreams = (segment.records.map (·.streamId)).dedup.length
  pendingRecords : world.storage.pendingRecords =
    Maps.sum (fun _ (stream : StreamState) => stream.pending.size) world.storage.streams
  pendingBytes : world.storage.pendingPayloadBytes = Maps.sum
    (fun _ (stream : StreamState) => stream.recountBytes world.storage.segments) world.storage.streams
  streamBytes : ∀ (streamId : StreamId) (stream : StreamState),
    world.storage.streams[streamId]? = some stream →
      stream.pendingPayloadBytes = stream.recountBytes world.storage.segments
  durable : world.storage.durableStreams =
    (Maps.values world.storage.streams).countP fun stream => stream.highwater.isSome
  reclaimable : world.storage.reclaimableSegments =
    (Maps.values world.storage.segments).countP Segment.drainedSealed
  reclaimableBytes : world.storage.reclaimableBytes =
    (((Maps.values world.storage.segments).filter Segment.drainedSealed).map Segment.fileLen).sum
  last : ∀ (active : Nat) (segment : Segment), world.storage.activeSegment = some active →
    world.storage.segments[active]? = some segment → ∀ streamId,
      (world.storage.stream streamId).lastSegmentId = some active ↔
        ∃ record ∈ segment.records, record.streamId = streamId

/-- **No subtraction from a counter fails**: not while records are marked, not while segments are
removed, whatever the manifest has persisted meanwhile, and not where the length of a file is
replaced. -/
structure Suffices (storage : Storage) : Prop where
  release : ∀ identities, ∃ next,
    tryFold Storage.markRecordReleased storage identities = .ok next
  removal : ∀ (eligible : List Nat) (streams : StreamMap), Eligible storage.segments eligible →
    (∃ next, tryFold (fun storage segmentId => Storage.dropSegment segmentId storage)
      { storage with streams := streams } eligible = .ok next) ∧
    (eligible.map fun segmentId => (storage.segments[segmentId]?.map Segment.fileLen).getD 0).sum ≤
      storage.actualFileBytes
  control : storage.manifest.checkpointLen + storage.manifest.logLen ≤ storage.actualFileBytes
  segments : ∀ (segmentId : Nat) (segment : Segment), storage.segments[segmentId]? = some segment →
    segment.fileLen ≤ storage.actualFileBytes

/-! ### Enough for every subtraction -/

/-- Marking a record never fails. -/
theorem exists_markRecordReleased (sound : storage.indexView.Sound)
    (exact : storage.countView.Exact) (identity : Identity) :
    ∃ next, storage.markRecordReleased identity = .ok next := by
  cases isPending : (StreamMap.entry storage.streams identity.1).pending[identity.2]? with
  | none => exact ⟨storage, markRecordReleased_eq_ok.mpr (.inl ⟨isPending, rfl⟩)⟩
  | some place =>
    obtain ⟨-, record, ⟨segment, found, isRecord⟩, -, -, unreleased⟩ :=
      sound.indexes.place _ _ _ isPending
    have found : storage.segments[place.segmentId]? = some segment := found
    cases isState : storage.streams[identity.1]? with
    | none =>
      rw [StreamMap.entry, isState] at isPending
      simp [StreamState.default] at isPending
    | some state =>
      have entry : StreamMap.entry storage.streams identity.1 = state := by
        rw [StreamMap.entry, isState]
        rfl
      rw [entry] at isPending
      have counts : 1 ≤ segment.unreleasedRecords := by
        have counted := sound.counted place.segmentId segment found
        rw [counted, Segment.unreleasedCount, Nat.one_le_iff_ne_zero, ← Nat.pos_iff_ne_zero,
          List.countP_pos_iff]
        exact ⟨record, List.mem_of_getElem? isRecord, by simp [unreleased]⟩
      have streamBytes : record.payloadLen ≤ state.pendingPayloadBytes := by
        have each := exact.each identity.1
        have each : (StreamMap.entry storage.streams identity.1).pendingPayloadBytes =
          (StreamMap.entry storage.streams identity.1).recountBytes storage.segments := each
        rw [entry] at each
        have payload : payloadAt storage.segments place = record.payloadLen :=
          payloadAt_of_placed ⟨segment, found, isRecord⟩
        rw [each, ← payload]
        exact @Maps.le_sum_of_found _ _ _ _ _ (fun _ pointer => payloadAt storage.segments pointer) _
          _ _ isPending
      have rootRecords : 1 ≤ storage.pendingRecords := by
        have records : storage.pendingRecords = pendingCount storage.streams := exact.records
        have size := Maps.size_of_found isPending
        have below := @Maps.le_sum_of_found _ _ _ _ _
          (fun _ (stream : StreamState) => stream.pending.size) _ _ _ isState
        rw [records]
        exact Nat.le_trans (by omega) below
      have rootBytes : record.payloadLen ≤ storage.pendingPayloadBytes := by
        have bytes : storage.pendingPayloadBytes = pendingBytes storage.streams := exact.bytes
        rw [bytes]
        exact streamBytes.trans (@Maps.le_sum_of_found _ _ _ _ _
          (fun _ (stream : StreamState) => stream.pendingPayloadBytes) _ _ _ isState)
      exact ⟨_, markRecordReleased_eq_ok.mpr (.inr ⟨state, place, segment, record, isState, isPending,
        found, isRecord, counts, streamBytes, rootRecords, rootBytes, rfl⟩)⟩

theorem exists_markRecordsReleased (sound : storage.indexView.Sound)
    (exact : storage.countView.Exact) (identities : List Identity) :
    ∃ next, tryFold Storage.markRecordReleased storage identities = .ok next := by
  induction identities generalizing storage with
  | nil => exact ⟨storage, rfl⟩
  | cons identity rest ih =>
    obtain ⟨middle, marks⟩ := exists_markRecordReleased sound exact identity
    obtain ⟨next, marksRest⟩ := ih (sound_markRecordReleased sound marks)
      (counters_markRecordReleased exact marks)
    refine ⟨next, ?_⟩
    rw [tryFold_cons, marks]
    exact marksRest

/-- Removing segments that may be removed never fails on a counter. -/
theorem exists_dropSegments
    (identities : ∀ segmentId ∈ storage.segments, segmentId < storage.nextSegmentId)
    (count : storage.reclaimableSegments =
      reclaimableCount storage.segments storage.nextSegmentId) (bytes : storage.reclaimableBytes =
      segmentSum Segment.reclaimableLen storage.segments storage.nextSegmentId)
    (isEligible : Eligible storage.segments eligible) :
    ∃ next, tryFold (fun storage segmentId => Storage.dropSegment segmentId storage) storage
      eligible = .ok next := by
  induction eligible generalizing storage with
  | nil => exact ⟨storage, rfl⟩
  | cons segmentId rest ih =>
    obtain ⟨segment, found, reclaimable⟩ := isEligible.2 segmentId List.mem_cons_self
    have inside : segmentId < storage.nextSegmentId := identities segmentId
      (Maps.mem_iff_found.mpr ⟨_, found⟩)
    have fewer := reclaimableCount_erase inside found
    have less := @segmentSum_erase Segment.reclaimableLen _ _ _ _ inside found
    rw [reclaimable, Bool.toNat_true, ← count] at fewer
    have len : segment.reclaimableLen = segment.fileLen := if_pos reclaimable
    rw [len, ← bytes] at less
    have drops : storage.dropSegment segmentId = .ok { storage with
        segments := storage.segments.erase segmentId
        reclaimableSegments := reclaimableCount (storage.segments.erase segmentId)
          storage.nextSegmentId
        reclaimableBytes := segmentSum Segment.reclaimableLen (storage.segments.erase segmentId)
          storage.nextSegmentId } :=
      Storage.dropSegment_eq_ok.mpr ⟨segment, _, _, found, fewer.symm, less.symm, rfl⟩
    obtain ⟨next, dropsRest⟩ := @ih { storage with
        segments := storage.segments.erase segmentId
        reclaimableSegments := reclaimableCount (storage.segments.erase segmentId)
          storage.nextSegmentId
        reclaimableBytes := segmentSum Segment.reclaimableLen (storage.segments.erase segmentId)
          storage.nextSegmentId }
      (fun otherId member => identities otherId (ExtTreeMap.mem_of_mem_erase member)) rfl rfl
      isEligible.drop
    refine ⟨next, ?_⟩
    rw [tryFold_cons, drops]
    exact dropsRest

/-- Different segments are together no longer than all. -/
theorem sum_segments_le {segments : SegmentMap} {bound : Nat} {eligible : List Nat}
    (distinct : eligible.Nodup) (below : ∀ segmentId ∈ eligible, segmentId < bound) :
    (eligible.map fun segmentId => (segments[segmentId]?.map Segment.fileLen).getD 0).sum ≤
      segmentSum Segment.fileLen segments bound := by
  rw [← List.sum_toFinset _ distinct]
  refine Finset.sum_le_sum_of_subset fun segmentId member => ?_
  exact Finset.mem_range.mpr (below segmentId (List.mem_toFinset.mp member))

/-- Exact books are enough for every subtraction. -/
theorem suffices_of_exact (sound : storage.indexView.Sound) (balanced : storage.bookView.Balanced)
    (counters : storage.countView.Exact) : Suffices storage := by
  have identities : ∀ segmentId ∈ storage.segments, segmentId < storage.nextSegmentId :=
    sound.identities
  have books : rootSuperblockLen + (storage.manifest.checkpointLen + storage.manifest.logLen) +
      segmentSum Segment.fileLen storage.segments storage.nextSegmentId =
        storage.actualFileBytes := balanced.books
  refine ⟨exists_markRecordsReleased sound counters, fun eligible streams isEligible => ⟨?_, ?_⟩,
    by omega, fun segmentId segment found => ?_⟩
  · exact exists_dropSegments identities sound.reclaimable balanced.reclaimable isEligible
  · have below : ∀ segmentId ∈ eligible, segmentId < storage.nextSegmentId := by
      intro segmentId member
      obtain ⟨segment, found, -⟩ := isEligible.2 segmentId member
      exact sound.identity_of_found found
    have part := @sum_segments_le storage.segments _ _ isEligible.1 below
    omega
  · exact balanced.fileLen_le (sound.identity_of_found found) found

/-! ### The recount -/

theorem isReclaimable_eq_drainedSealed {segment : Segment}
    (counted : segment.unreleasedRecords = segment.unreleasedCount) :
    segment.isReclaimable = segment.drainedSealed := by
  rw [Segment.isReclaimable, Segment.drainedSealed, Bool.eq_iff_iff]
  simp only [Bool.and_eq_true, decide_eq_true_eq, List.all_eq_true, counted,
    unreleasedCount_eq_zero]

/-- The names of the live files lead to as many bytes as the books say. -/
theorem fileBytes_of_stored {world : World} {file : Nat} (sound : world.storage.indexView.Sound)
    (balanced : world.storage.bookView.Balanced) (stored : Stored world file) :
    world.storage.actualFileBytes = world.fileBytes := by
  have books : rootSuperblockLen +
      (world.storage.manifest.checkpointLen + world.storage.manifest.logLen) +
      segmentSum Segment.fileLen world.storage.segments world.storage.nextSegmentId =
        world.storage.actualFileBytes := balanced.books
  have checkpoint : world.fs.lengthAt rootDirectory .checkpoint =
      world.storage.manifest.checkpointLen := by
    rw [Fs.lengthAt, stored.control.checkpoint]
    exact stored.control.checkpointLen
  have log : world.fs.lengthAt rootDirectory .manifestLog = world.storage.manifest.logLen := by
    rw [Fs.lengthAt, stored.control.log]
    exact stored.control.logLen
  have segments : Maps.sum (fun segmentId (_ : Segment) =>
      world.fs.lengthAt segmentsDirectory (.log segmentId)) world.storage.segments =
        segmentSum Segment.fileLen world.storage.segments world.storage.nextSegmentId := by
    have values := @segmentSum_values world.storage.segments _ Segment.fileLen sound.identities
    rw [show segmentSum _ _ world.storage.nextSegmentId = _ from values, Maps.sum_values]
    refine Maps.sum_eq_of_entries fun segmentId => ?_
    cases found : world.storage.segments[segmentId]? with
    | none => rfl
    | some segment =>
      have onDisk := stored.segments segmentId segment found
      simp only [Option.map_some, Fs.lengthAt, onDisk.found, onDisk.length, Option.getD_some]
  rw [World.fileBytes, checkpoint, log, segments, ← books, rootSuperblockLen]
  omega

theorem sum_filter_values {counts : Segment → Bool} {measure : Segment → Nat}
    (segments : List Segment) : ((segments.filter counts).map measure).sum =
      (segments.map fun segment => if counts segment then measure segment else 0).sum := by
  induction segments with
  | nil => rfl
  | cons segment rest ih =>
    rw [List.filter_cons, List.map_cons, List.sum_cons, ← ih]
    split_ifs
    · rw [List.map_cons, List.sum_cons]
    · rw [Nat.zero_add]

section

variable [Hasher] {world final : World}

theorem aggregates_reached (reached : Reached world) : Aggregates world := by
  have sound := sound_reached reached
  have balanced := balanced_reached reached
  have counters := counters_reached reached
  obtain ⟨file, stored⟩ := stored_reached reached
  have reclaims : ∀ segment ∈ Maps.values world.storage.segments,
      segment.isReclaimable = segment.drainedSealed := by
    intro segment member
    obtain ⟨entry, isEntry, rfl⟩ := List.mem_map.mp member
    exact isReclaimable_eq_drainedSealed (sound.counted entry.1 entry.2
      (ExtTreeMap.mem_toList_iff_getElem?_eq_some.mp isEntry))
  have streamBytes : ∀ (streamId : StreamId) (stream : StreamState),
      world.storage.streams[streamId]? = some stream →
        stream.pendingPayloadBytes = stream.recountBytes world.storage.segments := by
    intro streamId stream isStream
    have each : (StreamMap.entry world.storage.streams streamId).pendingPayloadBytes =
      (StreamMap.entry world.storage.streams streamId).recountBytes world.storage.segments :=
        counters.each streamId
    rw [StreamMap.entry, isStream] at each
    exact each
  refine ⟨fileBytes_of_stored sound balanced stored, ⟨?_, ?_, ?_⟩, sound.counted, balanced.unique,
    counters.records, ?_, streamBytes, counters.durable, ?_, ?_, ?_⟩
  · rw [stored.control.checkpoint]
    rfl
  · rw [stored.control.log]
    rfl
  · intro segmentId member
    obtain ⟨segment, found⟩ := Maps.mem_iff_found.mp member
    rw [(stored.segments segmentId segment found).found]
    rfl
  · rw [show world.storage.pendingPayloadBytes = pendingBytes world.storage.streams from
      counters.bytes]
    refine Maps.sum_eq_of_entries fun streamId => ?_
    cases isStream : world.storage.streams[streamId]? with
    | none => rfl
    | some stream => exact congrArg some (streamBytes streamId stream isStream)
  · rw [show world.storage.reclaimableSegments = _ from sound.reclaimable,
      ← countP_values sound.identities]
    exact List.countP_congr fun segment member => by rw [reclaims segment member]
  · have values := @segmentSum_values world.storage.segments _ Segment.reclaimableLen sound.identities
    rw [show world.storage.reclaimableBytes = _ from balanced.reclaimable.trans values,
      sum_filter_values]
    refine congrArg List.sum (List.map_congr_left fun segment member => ?_)
    rw [Segment.reclaimableLen, reclaims segment member]
  · intro active segment isActive found streamId
    have mentions : (∃ record ∈ segment.records, record.streamId = streamId) ↔
        streamId ∈ segment.streamIds := by rw [Segment.streamIds, List.mem_map]
    rw [mentions]
    constructor
    · intro last
      exact (balanced.last streamId active last).2 segment found
    · exact balanced.ends active segment isActive found streamId

/-- What the changes of an operation keep. -/
theorem suffices_chain (reached : Reached world) (chain : Chain world final) :
    Suffices final.storage := by
  have all := @Chain.rule _ _ _
    (fun world => world.storage.indexView.Sound ∧ world.storage.bookView.Balanced ∧
      world.storage.countView.Exact)
    (fun sound balanced before moves => ⟨sound_moves sound moves, balanced_moves sound balanced moves,
      counters_moves sound balanced before.2.2 moves⟩)
    (sound_reached reached) (balanced_reached reached)
    ⟨sound_reached reached, balanced_reached reached, counters_reached reached⟩ chain
  exact suffices_of_exact all.1 all.2.1 all.2.2

/-- **All cached aggregates are exact**, in every state that successful opens and operations reach.
Hence the counters suffice for every subtraction, in these states and after each of the changes that
an operation makes to them. -/
theorem aggregates_exact (reached : Reached world) :
    Aggregates world ∧ ∀ final, Chain world final → Suffices final.storage :=
  ⟨aggregates_reached reached, fun _ chain => suffices_chain reached chain⟩

end

/-- Two records in two segments, and what is left after the first is released and its segment
reclaimed. -/
theorem aggregates_exact_sample : ∃ before after : World,
    before.storage.pendingRecords = 2 ∧ after.storage.pendingRecords = 1 ∧
    before.storage.segments.size = 2 ∧ after.storage.segments.size = 1 ∧ Aggregates before ∧
    Aggregates after ∧ Suffices after.storage := by
  have evaluated : (Sample.extend .sample [Sample.append [Sample.unit 1], Sample.append [Sample.unit 1]]
      [Sample.release 1 0, .reclaim .automatic]).any (fun (before, after) =>
        decide (before.storage.pendingRecords = 2 ∧ after.storage.pendingRecords = 1 ∧
          before.storage.segments.size = 2 ∧ after.storage.segments.size = 1)) = true := by
    decide +kernel
  obtain ⟨⟨before, after⟩, found, checked⟩ := exists_of_any evaluated
  obtain ⟨two, one, both, last⟩ := of_decide_eq_true checked
  obtain ⟨reached, runs⟩ := Sample.runs_of_extend found
  obtain ⟨exactAfter, suffices_⟩ :=
    @aggregates_exact Hasher.fnv _ (@Runs.reached Hasher.fnv _ _ _ runs reached)
  exact ⟨before, after, two, one, both, last, (@aggregates_exact Hasher.fnv _ reached).1, exactAfter,
    suffices_ _ (@Chain.refl Hasher.fnv after)⟩

end Camus
