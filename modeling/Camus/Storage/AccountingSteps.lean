/-
**Operations keep the accounts balanced.**

* `returns_appendFrames`, `returns_compactFiles` — what frames and checkpoints add to the control
  files.
* `balanced_sealSegment`, `balanced_writeGroup`, `balanced_markRecordReleased`,
  `balanced_compactManifest` — one theorem per elementary change.
* `balanced_reclaimBatch` — the removal frames of a batch persist every stream of its segments that
  nothing else persists, before the segments go.
* `Chain.rule` — what every change keeps, given that the state before is sound and balanced, chains
  keep.
-/

import Camus.Storage.Accounting

namespace Camus

open Codec Checked Disk FaultIo Result Std

variable {bytes : Bytes} {checkpoint : Checkpoint} {creation : Clock} {outcome : DurabilityOutcome}
  {fs left : Fs} {ids : List (List RecordId)} {epochs : List Epoch} {eligible : List Nat}
  {manifest : Manifest} {segmentId start : Nat} {report : ReclaimReport} {segment : Segment}
  {persisted : Highwaters} {next storage middle : Storage} {streamId : StreamId}
  {value : Unit}

/-! ### The control files -/

/-- The streams a frame persists a high-water of. -/
def ManifestBody.persistedStreams : ManifestBody → List StreamId
  | .segmentRemoved body => body.highwaters.map (·.streamId)
  | _ => []

theorem ManifestBody.persistedStreams_le {body : ManifestBody} (encoded : body.encode = .ok bytes) :
    16 * body.persistedStreams.length ≤ bytes.length := by
  cases body with
  | release body => simp [persistedStreams]
  | segmentSealed body => simp [persistedStreams]
  | segmentRemoved body =>
    obtain ⟨-, -, -, rfl⟩ := ManifestBody.encode_removed.mp encoded
    have entries : (body.highwaters.flatMap StreamHighwater.encode).length =
        16 * body.highwaters.length := by
      rw [List.length_flatMap]
      simp [Nat.mul_comm]
    simp only [persistedStreams, List.length_map, List.length_append, word_length, entries]
    omega

section

variable [Hasher]

theorem encodeFrames_persisted {bodies : List ManifestBody} {next last : Nat} {frames : List Bytes}
    (encoded : encodeFrames next bodies = .ok (frames, last)) :
    16 * (bodies.flatMap ManifestBody.persistedStreams).length ≤ frames.flatten.length := by
  have each := encodeFrames_forall₂ encoded
  clear encoded
  induction each with
  | nil => simp
  | cons framed _ ih =>
    obtain ⟨seq, framed⟩ := framed
    obtain ⟨-, encodedBody, bodyEncoded, -, rfl⟩ := ManifestFrame.encodeParts_eq_ok.mp framed
    have bounded := ManifestBody.persistedStreams_le bodyEncoded
    simp only [List.flatMap_cons, List.flatten_cons, List.length_append]
    omega

/-- Frames lengthen the log by at least the high-waters they persist. -/
theorem returns_appendFrames {next : Manifest} {bodies : List ManifestBody}
    (returned : Returns (manifest.appendGroup bodies outcome) fs next left) :
    next.checkpointLen = manifest.checkpointLen ∧ manifest.logLen +
      16 * (bodies.flatMap ManifestBody.persistedStreams).length ≤ next.logLen := by
  obtain ⟨rfl, rfl, -⟩ | ⟨frames, last, -, -, encoded, -, rfl, -⟩ :=
    Manifest.returns_appendGroup returned
  · simp
  · exact ⟨rfl, Nat.add_le_add_left (encodeFrames_persisted encoded) _⟩

theorem Checkpoint.checkpointBytes_le (encoded : checkpoint.encode = .ok bytes) :
    checkpointBytes checkpoint.streamHighwaters.keys.length ≤ bytes.length := by
  obtain ⟨-, -, -, entries, -, -, rfl⟩ := Checkpoint.encode_eq_ok.mp encoded
  have streams : (checkpoint.streamHighwaters.toList.flatMap Checkpoint.encodeStream).length =
      checkpoint.streamHighwaters.toList.length * 16 := by
    rw [List.length_flatMap]
    simp
  have keys : checkpoint.streamHighwaters.keys.length =
      checkpoint.streamHighwaters.toList.length := by
    rw [← ExtTreeMap.map_fst_toList_eq_keys, List.length_map]
  have header : (Checkpoint.encodeHeader checkpoint.rootId checkpoint.lastAppliedSeq
      (Checkpoint.bodyOf checkpoint entries)).length = checkpointHeaderLen := by
    simp [Checkpoint.encodeHeader, checkpointHeaderLen]
  rw [keys, List.length_append, header]
  simp only [Checkpoint.bodyOf, List.length_append, word_length, streams, checkpointBytes]
  omega

theorem returns_compactFiles {next : Manifest}
    (returned : Returns (manifest.compact checkpoint) fs next left) :
    checkpointBytes checkpoint.streamHighwaters.keys.length + manifestLogHeaderLen ≤
      next.checkpointLen + next.logLen := by
  unfold Manifest.compact at returned
  obtain ⟨-, returned⟩ := returned.bind_require
  obtain ⟨bytes, encoded, returned⟩ := returned.bind_ofExcept
  obtain ⟨length, isLength, returned⟩ := returned.bind_ofOption
  obtain ⟨_, first, -, returned⟩ := returned.bind
  obtain ⟨_, second, -, returned⟩ := returned.bind
  obtain ⟨file, -, returned⟩ := returned.bind_read.bind_ofOption
  obtain ⟨rfl, -⟩ := returned.bind_observe.bind_observe.pure
  obtain ⟨rfl, -⟩ := toWord_eq_some.mp isLength
  simp only [malformed, mapError_eq_ok] at encoded
  exact Nat.add_le_add_right (Checkpoint.checkpointBytes_le encoded) _

/-! ### Compaction and sealing -/

variable {world final : World}

theorem balanced_compactManifest (balanced : world.storage.bookView.Balanced)
    (returned : Returns compactManifest world value final) : final.storage.bookView.Balanced := by
  obtain ⟨manifest, fs, bytes, maintenance, compacts, rebooked, rfl⟩ :=
    returns_compactManifest returned
  have room := returns_compactFiles compacts
  have isHeld : ∀ streamId, streamId ∈ (world.storage.streams.filterMap fun _ stream =>
      stream.highwater).keys ↔
        (StreamMap.entry world.storage.streams streamId).highwater.isSome = true := by
    intro streamId
    rw [ExtTreeMap.mem_keys, ExtTreeMap.mem_iff_isSome_getElem?, ExtTreeMap.getElem?_filterMap,
      StreamMap.entry]
    cases world.storage.streams[streamId]? <;> rfl
  refine balanced.compact rebooked.new rebooked.bounded ⟨fun streamId => ExtTreeMap.mem_map.mp,
    fun streamId => ?_, fun streamId isPersisted => ?_, fun streamId => ?_, fun streamId => ?_⟩
    isHeld room
  · rw [StreamMap.persists, entry_persisted]
    exact fun isSome => .inr ((isHeld streamId).mpr isSome)
  · rw [StreamMap.persists, entry_persisted]
    exact isPersisted.elim (balanced.backed streamId) (isHeld streamId).mp
  · rw [entry_persisted]
    rfl
  · rw [entry_persisted]
    rfl

/-- Frames that are added to the log. -/
theorem balanced_rebooked {bodies : List ManifestBody} {bytes : Nat}
    (balanced : storage.bookView.Balanced)
    (appended : Returns (storage.manifest.appendGroup bodies outcome) fs manifest left)
    (rebooked : Rebooked storage manifest bytes) :
    ({ storage with manifest := manifest, actualFileBytes := bytes } : Storage).bookView.Balanced := by
  obtain ⟨sameCheckpoint, grows⟩ := returns_appendFrames appended
  refine balanced.onManifest rebooked.new rebooked.bounded ?_
  show storage.manifest.checkpointLen + storage.manifest.logLen ≤
    manifest.checkpointLen + manifest.logLen
  omega

theorem balanced_sealSegment {reason : SealReason} (sound : world.storage.indexView.Sound)
    (balanced : world.storage.bookView.Balanced)
    (active : world.storage.activeSegment = some segmentId)
    (returned : Returns (sealSegment segmentId reason) world value final) :
    final.storage.bookView.Balanced := by
  obtain ⟨segment, sealed, footer, manifest, bytes, first, last, found, seals, fits, appended,
    rebooked, rfl⟩ := returns_sealSegment returned
  obtain ⟨other, isOther, noFooter⟩ := sound.isOpen segmentId active
  have isOther : world.storage.segments[segmentId]? = some other := isOther
  cases found.symm.trans isOther
  obtain ⟨shape, lengths⟩ := returns_sealData seals
  obtain ⟨sealedLen, footerLen⟩ := lengths noFooter
  have sameRecords : sealed.records = segment.records := by rw [shape]
  have sameUnique : sealed.uniqueStreams = segment.uniqueStreams := by rw [shape]
  have sameIds : sealed.streamIds = segment.streamIds := by
    rw [Segment.streamIds, sameRecords]
    rfl
  have inside := sound.identity_of_found found
  have kept : segment.isReclaimable = false := by simp [Segment.isReclaimable, noFooter]
  have room : world.storage.reclaimableBytes + segment.fileLen ≤ world.storage.actualFileBytes :=
    balanced.reclaimable_add_le inside found kept
  have long := balanced.long segmentId segment found
  have grows := (returns_appendFrames appended).2
  have sameCheckpoint := (returns_appendFrames appended).1
  have new := rebooked.new
  have bound := rebooked.bounded
  simp only at new
  have enough : world.storage.actualFileBytes - segment.fileLen + footer.segmentBytes ≤ wordMax := by
    omega
  have word : saturatingAdd world.storage.reclaimableBytes sealed.fileLen =
      world.storage.reclaimableBytes + sealed.fileLen := min_eq_left (by omega)
  have grown : ({ world.storage with
      segments := world.storage.segments.insert segmentId sealed
      activeSegment := none
      actualFileBytes := world.storage.actualFileBytes - segment.fileLen + footer.segmentBytes
      reclaimableBytes := if sealed.unreleasedRecords = 0 then
        saturatingAdd world.storage.reclaimableBytes sealed.fileLen
        else world.storage.reclaimableBytes } : Storage).bookView.Balanced := by
    refine balanced.replace enough ?_ ?_ (by simp) (.refl _ _) (fun _ _ isActive => by cases isActive)
      found inside ?_ ?_ fun streamId isHeld => ?_
    · rw [sameRecords]
      omega
    · rw [sameIds, sameUnique]
      exact balanced.unique segmentId segment found
    · show world.storage.actualFileBytes - segment.fileLen + footer.segmentBytes + segment.fileLen =
        world.storage.actualFileBytes + sealed.fileLen
      omega
    · show (if sealed.unreleasedRecords = 0 then _ else world.storage.reclaimableBytes) + _ =
        world.storage.reclaimableBytes + _
      have isSealed : sealed.footer.isSome = true := by rw [shape]; rfl
      simp only [Segment.reclaimableLen, kept, word]
      simp only [Segment.isReclaimable, isSealed, Bool.true_and, decide_eq_true_eq]
      split <;> rfl
    · rw [sameIds]
      exact isHeld
  have booked := balanced_rebooked grown appended ⟨rebooked.old, rebooked.new, rebooked.bounded⟩
  exact booked

end

/-! ### Appending -/

theorem Restands.insert {streams middle : StreamMap} {ids : List StreamId} {state : StreamState}
    (stands : Restands streams middle segmentId ids) (isLast : state.lastSegmentId = some segmentId)
    (isSome : state.highwater.isSome = true)
    (persisted : state.persistedHighwater = (middle.entry streamId).persistedHighwater) :
    Restands streams (middle.insert streamId state) segmentId (ids ++ [streamId]) where
  known other := by
    rw [ExtTreeMap.mem_insert, LawfulEqOrd.compare_eq_iff_eq, stands.known, List.mem_append,
      List.mem_singleton, @eq_comm _ other]
    tauto
  persists other := by
    refine .trans ?_ (stands.persists other)
    simp only [StreamMap.persists, StreamMap.entry_insert]
    split
    · rename_i same
      rw [persisted, same]
    · rfl
  backed other was := by
    rw [StreamMap.entry_insert]
    split
    · exact isSome
    · exact stands.backed other was
  last other := by
    rw [StreamMap.entry_insert]
    by_cases same : streamId = other
    · simp [same, isLast]
    · have different : other ≠ streamId := Ne.symm same
      rw [if_neg same, stands.last]
      simp only [List.mem_append, List.mem_singleton, different, or_false]

/-- A stream of which only the pending records change. -/
theorem Restands.pending {streams : StreamMap} {state : StreamState}
    {pending : ExtTreeMap Nat RecordPointer} {bytes : Nat} (isState : streams[streamId]? = some state) :
    Restands streams (streams.insert streamId
      { state with pending := pending, pendingPayloadBytes := bytes }) segmentId [] := by
  have entry : streams.entry streamId = state := by
    rw [StreamMap.entry, isState]
    rfl
  have standing : ∀ other, ∃ places size, StreamMap.entry (streams.insert streamId
      { state with pending := pending, pendingPayloadBytes := bytes }) other =
      { streams.entry other with pending := places, pendingPayloadBytes := size } := by
    intro other
    rw [StreamMap.entry_insert]
    split
    · rename_i same
      exact ⟨pending, bytes, by rw [← same, entry]⟩
    · exact ⟨_, _, rfl⟩
  refine ⟨fun other => ?_, fun other => ?_, fun other isSome => ?_, fun other => ?_⟩
  · have isStream : streamId ∈ streams := Maps.mem_iff_found.mpr ⟨_, isState⟩
    rw [Maps.mem_insert]
    exact ⟨Or.rec (fun same => .inl (same ▸ isStream)) .inl, Or.rec .inr (absurd · List.not_mem_nil)⟩
  all_goals obtain ⟨_, _, same⟩ := standing other
  · simp only [StreamMap.persists, same]
  · rw [same]
    exact isSome
  · rw [same]
    rfl

/-- Indexing records of a segment adds their streams, which end there then, and no other. -/
theorem restands_indexDurableRecords (found : storage.segments[segmentId]? = some segment)
    (indexed : storage.indexDurableRecords segmentId start = .ok next) :
    Restands storage.streams next.streams segmentId
      ((segment.records.drop start).map (·.streamId)) := by
  simp only [Storage.indexDurableRecords, bind_eq_ok, Storage.segmentAt,
    orError_eq_ok] at indexed
  obtain ⟨_, isSegment, folded⟩ := indexed
  cases found.symm.trans isSegment
  have processed := tryFold_induction_done (fun processed (total : Storage) =>
    Restands storage.streams total.streams segmentId
      (processed.map fun entry : StoredRecord × Nat => entry.1.streamId)) (.refl _ _) ?_ folded
  · have streams : (segment.records.zipIdx.drop start).map (fun entry => entry.1.streamId) =
        (segment.records.drop start).map (·.streamId) := by
      have firsts : segment.records.zipIdx.map Prod.fst = segment.records := by simp
      rw [← firsts, ← List.map_drop, List.map_map]
      rw [firsts]
      rfl
    rwa [streams] at processed
  · rintro processed ⟨record, ordinal⟩ rest total following _ before stepped
    obtain ⟨-, -, -, rfl⟩ := indexDurableRecord_iff.mp stepped
    rw [List.map_append]
    exact before.insert rfl rfl rfl

/-- The streams of a group that are counted as new are those without a record in the segment. -/
theorem dedup_append_eq {old added prepared : List StreamId} {streams : StreamMap} {active : Nat}
    (holds : ∀ streamId, (streams.entry streamId).lastSegmentId = some active ↔ streamId ∈ old)
    (covers : ∀ streamId, streamId ∈ added ↔ streamId ∈ prepared) :
    (old ++ added).dedup.length = old.dedup.length +
      (ExtTreeSet.ofList prepared).toList.countP fun streamId =>
        streams[streamId]?.bind (·.lastSegmentId) ≠ some active := by
  have ends : ∀ streamId, streams[streamId]?.bind (·.lastSegmentId) = some active ↔
      streamId ∈ old := by
    intro streamId
    rw [← holds, StreamMap.entry]
    cases found : streams[streamId]? with
    | none => simp [StreamState.default]
    | some stream => rfl
  have distinct : (ExtTreeSet.ofList prepared).toList.Nodup :=
    ExtTreeSet.distinct_toList.imp fun different same => different (by simp [same])
  rw [Maps.dedup_length_append, List.countP_eq_length_filter]
  refine congrArg _ (List.Perm.length_eq ?_)
  refine (List.perm_ext_iff_of_nodup ((List.nodup_dedup added).filter _) (distinct.filter _)).mpr
    fun streamId => ?_
  simp [ends, covers]

section

variable [Hasher] {world final : World}

theorem mem_streamIds_storedEpochs_iff (valid : ∀ epoch ∈ epochs, epoch.Valid) :
    streamId ∈ (storedEpochs start epochs).map (·.streamId) ↔
      streamId ∈ (epochs.map Epoch.prepared).map (·.streamId) := by
  rw [mem_storedEpochs_streamId fun epoch member => (valid epoch member).nonempty, List.map_map]
  rfl

section

variable (sound : world.storage.indexView.Sound) (balanced : world.storage.bookView.Balanced)
  (valid : ∀ epoch ∈ epochs, epoch.Valid)

include sound balanced valid

/-- A group in the active segment: the streams that are new to it end there then. -/
theorem balanced_extended {active : Nat} {appended : Segment} {indexed : Storage}
    (isActive : world.storage.activeSegment = some active)
    (extended : Extended world final active (epochs.map Epoch.prepared) segment appended ids indexed) :
    final.storage.bookView.Balanced := by
  have enough := sixteen_mul_records_le epochs
  obtain ⟨noFooter, shape, -⟩ := returns_segmentAppend valid extended.appends
  have records : appended.records = segment.records ++ storedEpochs segment.fileLen epochs := by
    rw [shape]
  have length : appended.fileLen = segment.fileLen + epochsLength epochs := by rw [shape]
  have footless : appended.footer = none := by rw [shape]; exact noFooter
  have unique : appended.uniqueStreams = segment.uniqueStreams +
      world.storage.newStreams active (epochs.map Epoch.prepared) := by rw [shape]
  have ids : appended.streamIds =
      segment.streamIds ++ (storedEpochs segment.fileLen epochs).map (·.streamId) := by
    rw [Segment.streamIds, records, List.map_append]
    rfl
  have inserted : (world.storage.segments.insert active appended)[active]? = some appended :=
    ExtTreeMap.getElem?_insert_self
  have stands := restands_indexDurableRecords inserted extended.indexes
  rw [records, List.drop_left] at stands
  have found : world.storage.segments[active]? = some segment := extended.found
  have ends : ∀ streamId, (StreamMap.entry world.storage.streams streamId).lastSegmentId =
      some active ↔ streamId ∈ segment.streamIds := fun streamId =>
    ⟨fun isLast => (balanced.last streamId active isLast).2 segment found,
      balanced.ends active segment isActive found streamId⟩
  have long := balanced.long active segment found
  have frame := indexDurableRecords_frame extended.indexes
  have fits := extended.fits
  have bounded := extended.bounded
  rw [extended.left]
  rw [frame] at fits bounded ⊢
  have fits : segment.fileLen ≤ world.storage.actualFileBytes := fits
  refine balanced.replace bounded ?_ ?_ ?_ stands ?_ found (sound.identity_of_found found) ?_ ?_ ?_
  · clear bounded
    rw [records, length, List.length_append, storedEpochs_length]
    omega
  · rw [ids, unique, balanced.unique active segment found]
    exact (dedup_append_eq ends fun streamId => mem_streamIds_storedEpochs_iff valid).symm
  · intro streamId isAdded
    rw [ids]
    exact List.mem_append_right _ isAdded
  · intro activeId other otherActive isOther streamId member
    cases isActive.symm.trans otherActive
    cases inserted.symm.trans isOther
    rw [ids, List.mem_append] at member
    refine (stands.last streamId).trans ?_
    split
    · rfl
    · rename_i notAdded
      exact (ends streamId).mpr (member.resolve_right notAdded)
  · show world.storage.actualFileBytes - segment.fileLen + appended.fileLen + segment.fileLen =
      world.storage.actualFileBytes + appended.fileLen
    clear bounded
    omega
  · simp only [Segment.reclaimableLen, Segment.isReclaimable, noFooter, footless]
    rfl
  · intro streamId isHeld
    rw [ids]
    exact List.mem_append_left _ isHeld

/-- A group in a new segment. -/
theorem balanced_created {indexed : Storage}
    (created : Created world final (epochs.map Epoch.prepared) segment ids indexed) :
    final.storage.bookView.Balanced := by
  have enough := sixteen_mul_records_le epochs
  obtain ⟨createdAt, creates⟩ := created.creates
  obtain ⟨⟨noFooter, length, records, -, unique⟩, -⟩ := returns_segmentCreate valid creates
  have inserted : (world.storage.segments.insert world.storage.nextSegmentId
      segment)[world.storage.nextSegmentId]? = some segment := ExtTreeMap.getElem?_insert_self
  have stands := restands_indexDurableRecords inserted created.indexes
  rw [List.drop_zero] at stands
  have frame := indexDurableRecords_frame created.indexes
  have last : world.storage.nextSegmentId ≤ wordMax := sound.last
  have next : saturatingAdd world.storage.nextSegmentId 1 = world.storage.nextSegmentId + 1 :=
    min_eq_left (by have room := created.room; omega)
  have bounded := created.bounded
  rw [created.left]
  rw [frame, next] at bounded ⊢
  refine balanced.create bounded ?_ unique (fun _ => id) stands ?_ rfl
    (by simp [Segment.isReclaimable, noFooter]) sound.identities
  · clear bounded
    rw [records, length, storedEpochs_length]
    omega
  · intro activeId other otherActive isOther streamId member
    cases otherActive
    cases inserted.symm.trans isOther
    exact (stands.last streamId).trans (if_pos member)

theorem balanced_writeGroup
    (returned : Returns (writeGroup (epochs.map Epoch.prepared) creation) world ids final) :
    final.storage.bookView.Balanced := by
  rcases returns_writeGroup returned with ⟨active, segment, appended, indexed, isActive, extended⟩ |
    ⟨segment, indexed, -, created⟩
  · exact balanced_extended sound balanced valid isActive extended
  · exact balanced_created sound balanced valid created

end

end

/-! ### Releasing -/

theorem Segment.releaseRecord_streamIds (segment : Segment) (ordinal unreleased : Nat) :
    (segment.releaseRecord ordinal unreleased).streamIds = segment.streamIds := by
  refine List.ext_getElem? fun index => ?_
  simp only [Segment.streamIds, Segment.releaseRecord, List.getElem?_map, List.getElem?_modify]
  cases segment.records[index]? with
  | none => rfl
  | some record =>
    simp only [Option.map_some]
    split <;> rfl

theorem balanced_markRecordReleased {identity : Identity} (sound : storage.indexView.Sound)
    (balanced : storage.bookView.Balanced) (marked : storage.markRecordReleased identity = .ok next)
    : next.bookView.Balanced := by
  obtain ⟨-, rfl⟩ | ⟨state, place, segment, record, isMarked⟩ := markRecordReleased_eq_ok.mp marked
  · exact balanced
  · have found := isMarked.found
    have inside := sound.identity_of_found found
    have ids := segment.releaseRecord_streamIds place.ordinal (segment.unreleasedRecords - 1)
    have counts := isMarked.counts
    have kept : segment.isReclaimable = false := by
      have some : segment.unreleasedRecords ≠ 0 := by omega
      simp [Segment.isReclaimable, some]
    have bounded := balanced.bounded
    have fits := balanced.reclaimable_add_le inside found kept
    have stands := @Restands.pending place.segmentId _ _ _ (state.pending.erase identity.2)
      (state.pendingPayloadBytes - record.payloadLen) isMarked.isState
    rw [isMarked.left]
    refine balanced.replace bounded ?_ ?_ (by simp) stands ?_ found inside rfl ?_ ?_
    · have long := balanced.long place.segmentId segment found
      simpa [Segment.releaseRecord] using long
    · rw [ids]
      exact balanced.unique place.segmentId segment found
    · intro activeId other isActive isOther streamId member
      refine (stands.last streamId).trans ?_
      obtain ⟨rfl, rfl⟩ | ⟨-, lookup⟩ := Maps.getElem?_insert_eq_some.mp isOther
      · rw [ids] at member
        exact balanced.ends place.segmentId segment isActive found streamId member
      · exact balanced.ends activeId other isActive lookup streamId member
    · show (if segment.footer.isSome && segment.unreleasedRecords = 1
        then saturatingAdd storage.reclaimableBytes segment.fileLen else storage.reclaimableBytes) +
          segment.reclaimableLen = storage.reclaimableBytes +
            (segment.releaseRecord place.ordinal (segment.unreleasedRecords - 1)).reclaimableLen
      have same : segment.unreleasedRecords - 1 = 0 ↔ segment.unreleasedRecords = 1 := by omega
      have word : saturatingAdd storage.reclaimableBytes segment.fileLen =
          storage.reclaimableBytes + segment.fileLen := min_eq_left (fits.trans bounded)
      have nothing : segment.reclaimableLen = 0 := by simp [Segment.reclaimableLen, kept]
      rw [nothing, word]
      simp only [Segment.reclaimableLen, Segment.isReclaimable, Segment.releaseRecord, same]
      split <;> rfl
    · intro streamId isHeld
      rw [ids]
      exact isHeld

/-! ### Reclaiming -/

theorem mem_maxima (segment : Segment) (streamId : StreamId) :
    streamId ∈ segment.maxima ↔ streamId ∈ segment.streamIds := by
  have general : ∀ (records : List StoredRecord) (start : Highwaters),
      streamId ∈ records.foldl (fun (maxima : Highwaters) record =>
        maxima.insert record.streamId ((maxima[record.streamId]?.map fun sequence =>
          max sequence record.sequence).getD record.sequence)) start ↔
        streamId ∈ start ∨ streamId ∈ records.map (·.streamId) := by
    intro records
    induction records with
    | nil => simp
    | cons record rest ih =>
      intro start
      rw [List.foldl_cons, ih, ExtTreeMap.mem_insert, LawfulEqOrd.compare_eq_iff_eq,
        List.map_cons, List.mem_cons, eq_comm, or_assoc, or_left_comm]
  unfold Segment.maxima
  rw [general]
  simp [Segment.streamIds]

/-- The streams of a removal frame are streams of the segment, and one that is not in it was persisted
before. -/
theorem removalBody_streams (segment : Segment) (segmentId : Nat)
    (persisted : Highwaters) (streamId : StreamId) :
    (streamId ∈ (removalBody segment segmentId persisted).highwaters.map (·.streamId) →
      streamId ∈ segment.streamIds) ∧
    (streamId ∈ segment.streamIds → streamId ∈ persisted ∨
      streamId ∈ (removalBody segment segmentId persisted).highwaters.map (·.streamId)) := by
  constructor
  · intro member
    simp only [removalBody, List.map_map, List.mem_map, List.mem_filter, Function.comp_apply] at member
    obtain ⟨entry, ⟨isEntry, -⟩, rfl⟩ := member
    exact (mem_maxima _ _).mp (Maps.mem_iff_found.mpr
      ⟨_, ExtTreeMap.mem_toList_iff_getElem?_eq_some.mp isEntry⟩)
  · intro isHeld
    obtain ⟨sequence, found⟩ := Maps.mem_iff_found.mp ((mem_maxima _ _).mpr isHeld)
    cases before : persisted[streamId]? with
    | some current =>
      exact .inl (Maps.mem_iff_found.mpr ⟨_, before⟩)
    | none =>
      refine .inr ?_
      simp only [removalBody, List.map_map, List.mem_map, List.mem_filter, Function.comp_apply]
      exact ⟨(streamId, sequence), ⟨ExtTreeMap.mem_toList_iff_getElem?_eq_some.mpr found,
        by simp [before]⟩, rfl⟩

theorem mem_persistBody {body : SegmentRemovedBody} : streamId ∈ persistBody persisted body ↔
      streamId ∈ persisted ∨ streamId ∈ body.highwaters.map (·.streamId) := by
  unfold persistBody
  generalize body.highwaters = highwaters
  induction highwaters generalizing persisted with
  | nil => simp
  | cons highwater rest ih =>
    rw [List.foldl_cons, ih, ExtTreeMap.mem_insert, LawfulEqOrd.compare_eq_iff_eq,
      List.map_cons, List.mem_cons, eq_comm, or_assoc, or_left_comm]

/-- **The removal frames of a batch** persist streams of its segments, and all of them that nothing
else has persisted. -/
theorem removalBodies_streams {bodies : List SegmentRemovedBody}
    (planned : storage.removalBodies persisted eligible = .ok bodies) :
    (∀ streamId ∈ (bodies.flatMap (·.highwaters)).map (·.streamId),
      ∃ (segmentId : Nat) (segment : Segment), storage.segments[segmentId]? = some segment ∧
        streamId ∈ segment.streamIds) ∧
    ∀ segmentId ∈ eligible, ∀ segment, storage.segments[segmentId]? = some segment →
      ∀ streamId ∈ segment.streamIds, streamId ∈ persisted ∨
        streamId ∈ (bodies.flatMap (·.highwaters)).map (·.streamId) := by
  induction eligible generalizing persisted bodies with
  | nil =>
    cases planned
    exact ⟨nofun, nofun⟩
  | cons segmentId rest ih =>
    simp only [Storage.removalBodies, Storage.segmentAt, bind_eq_ok, orError_eq_ok,
      pure_eq_ok] at planned
    obtain ⟨segment, found, others, isOthers, rfl⟩ := planned
    obtain ⟨from_, covers⟩ := ih isOthers
    simp only [List.flatMap_cons, List.map_append, List.mem_append]
    constructor
    · rintro streamId (first | later)
      · exact ⟨segmentId, segment, found, (removalBody_streams segment segmentId persisted streamId).1
          first⟩
      · exact from_ streamId later
    · intro otherId member other isOther streamId isHeld
      rcases List.mem_cons.mp member with rfl | later
      · cases found.symm.trans isOther
        rcases (removalBody_streams segment otherId persisted streamId).2 isHeld with before | here
        · exact .inl before
        · exact .inr (.inl here)
      · rcases covers otherId later other isOther streamId isHeld with before | there
        · rcases mem_persistBody.mp before with earlier | here
          · exact .inl earlier
          · exact .inr (.inl here)
        · exact .inr (.inr there)

/-- The streams of removal frames have a high-water. -/
theorem highwater_of_removalBodies {bodies : List SegmentRemovedBody}
    (sound : storage.indexView.Sound) (planned : storage.removalBodies persisted eligible = .ok bodies) :
    ∀ streamId ∈ (bodies.flatMap (·.highwaters)).map (·.streamId),
      (StreamMap.entry storage.streams streamId).highwater.isSome = true := by
  intro streamId member
  obtain ⟨segmentId, segment, found, isHeld⟩ := (removalBodies_streams planned).1 streamId member
  obtain ⟨record, isRecord, rfl⟩ := List.mem_map.mp isHeld
  obtain ⟨ordinal, place⟩ := List.mem_iff_getElem?.mp isRecord
  obtain ⟨highwater, isHighwater, -⟩ := sound.indexes.below segmentId ordinal record trivial
    ⟨segment, found, place⟩
  exact Option.isSome_iff_exists.mpr ⟨highwater, isHighwater⟩

theorem persists_of_mem {streams : StreamMap}
    (member : streamId ∈ streams.filterMap fun _ stream => stream.persistedHighwater) :
    streams.persists streamId := by
  rw [ExtTreeMap.mem_iff_isSome_getElem?, ExtTreeMap.getElem?_filterMap] at member
  unfold StreamMap.persists StreamMap.entry
  cases isStream : streams[streamId]? with
  | none =>
    rw [isStream] at member
    cases member
  | some stream =>
    rw [isStream] at member
    exact member

theorem Persisting.persistHighwater {fresh : List StreamId} {highwater : StreamHighwater}
    (persisting : Persisting storage.streams middle.streams fresh)
    (persisted : middle.persistHighwater highwater = .ok next) :
    Persisting storage.streams next.streams (fresh ++ [highwater.streamId]) := by
  obtain ⟨stream, isStream, rfl⟩ := Storage.persistHighwater_eq_ok.mp persisted
  have entry : StreamMap.entry middle.streams highwater.streamId = stream := by
    rw [StreamMap.entry, isStream]
    rfl
  refine ⟨fun streamId member => ?_, fun streamId isPersisted => ?_, fun streamId isPersisted => ?_,
    fun streamId => ?_, fun streamId => ?_⟩
  · obtain rfl | old := Maps.mem_insert.mp member
    · exact persisting.known _ (Maps.mem_iff_found.mpr ⟨_, isStream⟩)
    · exact persisting.known streamId old
  · rw [List.mem_append, ← or_assoc]
    simp only [StreamMap.persists, StreamMap.entry_insert] at isPersisted
    split at isPersisted
    · rename_i same
      exact .inr (by simp [same])
    · exact .inl (persisting.new streamId isPersisted)
  · simp only [StreamMap.persists, StreamMap.entry_insert]
    split
    · rfl
    · rename_i different
      refine persisting.keeps streamId (isPersisted.imp_right fun member => ?_)
      rcases List.mem_append.mp member with old | here
      · exact old
      · exact absurd (List.mem_singleton.mp here).symm different
  · refine .trans ?_ (persisting.highwater streamId)
    rw [StreamMap.entry_insert]
    split
    · rename_i same
      subst same
      rw [entry]
    · rfl
  · refine .trans ?_ (persisting.last streamId)
    rw [StreamMap.entry_insert]
    split
    · rename_i same
      subst same
      rw [entry]
    · rfl

theorem persisting_tryFold {highwaters : List StreamHighwater}
    (folded : tryFold Storage.persistHighwater storage highwaters = .ok next) :
    Persisting storage.streams next.streams (highwaters.map (·.streamId)) ∧
      next = { storage with streams := next.streams } := by
  refine tryFold_induction_done (fun processed (total : Storage) =>
    Persisting storage.streams total.streams (processed.map (·.streamId)) ∧
      total = { storage with streams := total.streams }) ⟨.refl _, rfl⟩ ?_ folded
  rintro processed highwater rest total later - ⟨persisting, frame⟩ stepped
  rw [List.map_append]
  refine ⟨persisting.persistHighwater stepped, ?_⟩
  obtain ⟨stream, -, rfl⟩ := Storage.persistHighwater_eq_ok.mp stepped
  rw [frame]

theorem foldl_saturatingAdd_eq {lengths : List Nat} (bounded : start + lengths.sum ≤ wordMax) :
    lengths.foldl saturatingAdd start = start + lengths.sum := by
  induction lengths generalizing start with
  | nil => simp
  | cons length rest ih =>
    rw [List.sum_cons] at bounded ⊢
    have one : saturatingAdd start length = start + length := min_eq_left (by omega)
    rw [List.foldl_cons, one, ih (by omega), Nat.add_assoc]

section

variable [Hasher] {world final : World}

/-- The segments of a batch go. Their bytes are taken from the count at the end, so some are owed
between. -/
theorem balanced_removeSegments {eligible lengths : List Nat} {owed : Nat}
    (identities : ∀ segmentId ∈ world.storage.segments, segmentId < world.storage.nextSegmentId)
    (isEligible : Eligible world.storage.segments eligible)
    (persisted : ∀ segmentId ∈ eligible, ∀ segment, world.storage.segments[segmentId]? = some segment →
      ∀ streamId ∈ segment.streamIds, StreamMap.persists world.storage.streams streamId)
    (balanced : ({ world.storage.bookView with actual := world.storage.actualFileBytes - owed } :
      BookView).Balanced) (owing : owed ≤ world.storage.actualFileBytes)
    (returned : Returns (removeSegments eligible) world lengths final) :
    ({ final.storage.bookView with
      actual := final.storage.actualFileBytes - (owed + lengths.sum) } : BookView).Balanced ∧
      owed + lengths.sum ≤ world.storage.actualFileBytes := by
  induction eligible generalizing world lengths owed with
  | nil =>
    obtain ⟨rfl, rfl⟩ := Returns.result returned
    exact ⟨balanced, owing⟩
  | cons segmentId rest ih =>
    obtain ⟨segment, dropped, fs, removed, found, drops, rfl, -, removes⟩ :=
      returns_removeSegments_cons returned
    obtain ⟨other, isOther, reclaimable⟩ := isEligible.2 segmentId List.mem_cons_self
    cases found.symm.trans isOther
    obtain ⟨same, count, reclaimableBytes, isSame, -, counts, rfl⟩ := Storage.dropSegment_eq_ok.mp drops
    cases found.symm.trans isSame
    have inside : segmentId < world.storage.nextSegmentId := identities segmentId
      (Maps.mem_iff_found.mpr ⟨_, found⟩)
    have fits : segment.fileLen ≤ world.storage.actualFileBytes - owed :=
      balanced.fileLen_le inside found
    have shrunk := balanced.drop found inside
      (persisted segmentId List.mem_cons_self segment found) reclaimable counts
    have owes : world.storage.actualFileBytes - owed - segment.fileLen =
        world.storage.actualFileBytes - (owed + segment.fileLen) := by omega
    have below : ∀ otherId ∈ world.storage.segments.erase segmentId,
        otherId < world.storage.nextSegmentId := fun otherId member =>
      identities otherId (ExtTreeMap.mem_of_mem_erase member)
    have still : ∀ otherId ∈ rest, ∀ other,
        (world.storage.segments.erase segmentId)[otherId]? = some other →
          ∀ streamId ∈ other.streamIds, StreamMap.persists world.storage.streams streamId :=
      fun otherId member other isOther => persisted otherId (List.mem_cons_of_mem _ member) other
        (Maps.getElem?_erase_eq_some.mp isOther).2
    obtain ⟨left, covered⟩ := @ih ⟨_, fs⟩ removed (owed + segment.fileLen) below isEligible.drop still
      (by rw [← owes]; exact shrunk) (by show _ ≤ world.storage.actualFileBytes; omega) removes
    rw [List.sum_cons, ← Nat.add_assoc]
    exact ⟨left, covered⟩

theorem balanced_reclaimBatch (sound : world.storage.indexView.Sound)
    (balanced : world.storage.bookView.Balanced) (isEligible : Eligible world.storage.segments eligible)
    (returned : Returns (reclaimBatch eligible) world report final) :
    final.storage.bookView.Balanced := by
  rcases returns_reclaimBatch returned with ⟨rfl, -, rfl⟩ |
    ⟨bodies, manifest, fs, bytes, persisted, removed, maintenance, afterRemoval, planned, appended,
      rebooked, folded, removes, rfl, -, -, left⟩
  · exact balanced
  · have covers := (removalBodies_streams planned).2
    obtain ⟨persisting, frame⟩ := persisting_tryFold folded
    obtain ⟨sameCheckpoint, grows⟩ := returns_appendFrames appended
    have frames : ((bodies.map ManifestBody.segmentRemoved).flatMap
        ManifestBody.persistedStreams) = (bodies.flatMap (·.highwaters)).map (·.streamId) := by
      rw [List.flatMap_map, List.map_flatMap]
      rfl
    rw [frames] at grows
    have booked : persisted.bookView.Balanced := by
      rw [frame]
      refine balanced.persist rebooked.new rebooked.bounded persisting
        (highwater_of_removalBodies sound planned) ?_
      show world.storage.manifest.checkpointLen + world.storage.manifest.logLen + _ ≤
        manifest.checkpointLen + manifest.logLen
      omega
    have segments : persisted.segments = world.storage.segments := by rw [frame]
    have allPersisted : ∀ segmentId ∈ eligible, ∀ segment,
        persisted.segments[segmentId]? = some segment →
        ∀ streamId ∈ segment.streamIds, StreamMap.persists persisted.streams streamId := by
      intro segmentId member segment found streamId isHeld
      rw [segments] at found
      refine persisting.keeps streamId ?_
      exact (covers segmentId member segment found streamId isHeld).imp_left persists_of_mem
    have identities : ∀ segmentId ∈ persisted.segments, segmentId < persisted.nextSegmentId := by
      rw [frame]
      exact sound.identities
    obtain ⟨afterwards, covered⟩ := @balanced_removeSegments _ ⟨persisted, fs⟩ _ _ _ 0 identities
      (segments ▸ isEligible) allPersisted booked (Nat.zero_le _) removes
    rw [Nat.zero_add] at afterwards covered
    have total : removed.foldl saturatingAdd 0 = removed.sum := by
      rw [foldl_saturatingAdd_eq, Nat.zero_add]
      exact (Nat.zero_add _).le.trans (covered.trans booked.bounded)
    rw [left, total]
    exact afterwards

/-! ### Chains of changes -/

theorem balanced_moves (sound : world.storage.indexView.Sound)
    (balanced : world.storage.bookView.Balanced) (moves : Moves world final) :
    final.storage.bookView.Balanced := by
  cases moves with
  | seals active returned => exact balanced_sealSegment sound balanced active returned
  | writes valid _ returned => exact balanced_writeGroup sound balanced valid returned
  | announces returned rebooked => exact balanced_rebooked balanced returned rebooked
  | marks marked => exact balanced_markRecordReleased sound balanced marked
  | reclaims isEligible returned => exact balanced_reclaimBatch sound balanced isEligible returned
  | compacts returned => exact balanced_compactManifest balanced returned
  | notes => exact balanced

/-- What every change keeps, chains keep. -/
theorem Chain.rule {holds : World → Prop}
    (moves : ∀ {world final : World}, world.storage.indexView.Sound →
      world.storage.bookView.Balanced → holds world → Moves world final → holds final)
    (sound : world.storage.indexView.Sound) (balanced : world.storage.bookView.Balanced)
    (before : holds world) (chain : Chain world final) : holds final := by
  suffices all : final.storage.indexView.Sound ∧ final.storage.bookView.Balanced ∧ holds final from
    all.2.2
  induction chain with
  | refl => exact ⟨sound, balanced, before⟩
  | tail _ last ih =>
    obtain ⟨soundBefore, balancedBefore, held⟩ := ih
    exact ⟨sound_moves soundBefore last, balanced_moves soundBefore balancedBefore last,
      moves soundBefore balancedBefore held last⟩

end

end Camus
