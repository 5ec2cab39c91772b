/-
**What the operations of an open root leave alone.**

`Keeps part program`: however the program ends, a part of the state in memory is as it was. One
rule per way to build a program; from them, the identity and the configuration of an open root never
change (`keeps_appendGroup`, `keeps_releaseGroup`, `keeps_reclaim`, `keeps_sealExpired`).

* `Marked`, `markRecordReleased_eq_ok` — what marking a record does, and that it needs;
  `indexDurableRecord_iff`, `Storage.persistHighwater_eq_ok`, `Storage.dropSegment_eq_ok` — the same
  for the other changes of the state in memory.
-/

import Camus.Storage.Handoff

set_option linter.unusedSectionVars false

namespace Camus

open Codec Checked Disk FaultIo Result

/-! ### Changes in memory -/

section

variable {identity : Identity} {segmentId : Nat} {storage next : Storage}

/-- **A pending record was marked as released.** -/
structure Marked (storage next : Storage) (identity : Identity) (state : StreamState)
    (place : RecordPointer) (segment : Segment) (record : StoredRecord) : Prop where
  isState : storage.streams[identity.1]? = some state
  isPending : state.pending[identity.2]? = some place
  found : storage.segments[place.segmentId]? = some segment
  isRecord : segment.records[place.ordinal]? = some record
  counts : 1 ≤ segment.unreleasedRecords
  streamBytes : record.payloadLen ≤ state.pendingPayloadBytes
  rootRecords : 1 ≤ storage.pendingRecords
  rootBytes : record.payloadLen ≤ storage.pendingPayloadBytes
  left : next = { storage with
    segments := storage.segments.insert place.segmentId
      (segment.releaseRecord place.ordinal (segment.unreleasedRecords - 1))
    streams := storage.streams.insert identity.1 { state with
      pending := state.pending.erase identity.2
      pendingPayloadBytes := state.pendingPayloadBytes - record.payloadLen }
    pendingRecords := storage.pendingRecords - 1
    pendingPayloadBytes := storage.pendingPayloadBytes - record.payloadLen
    reclaimableSegments := if segment.footer.isSome && segment.unreleasedRecords = 1
      then saturatingAdd storage.reclaimableSegments 1 else storage.reclaimableSegments
    reclaimableBytes := if segment.footer.isSome && segment.unreleasedRecords = 1
      then saturatingAdd storage.reclaimableBytes segment.fileLen else storage.reclaimableBytes }

theorem Marked.entry {state : StreamState} {place : RecordPointer} {segment : Segment}
    {record : StoredRecord} (marked : Marked storage next identity state place segment record) :
    StreamMap.entry storage.streams identity.1 = state := by
  rw [StreamMap.entry, marked.isState]
  rfl

/-- **Marking succeeds** on a record that is not pending, and on a pending one whose counters suffice. -/
theorem markRecordReleased_eq_ok :
    storage.markRecordReleased identity = .ok next ↔
      ((StreamMap.entry storage.streams identity.1).pending[identity.2]? = none ∧ next = storage) ∨
      ∃ state place segment record, Marked storage next identity state place segment record := by
  have sub : ∀ {whole part rest : Nat}, checkedSub whole part = some rest ↔
      part ≤ whole ∧ rest = whole - part := by
    intro whole part rest
    rw [checkedSub_eq_some]
    omega
  have noEntry : storage.streams[identity.1]? = none →
      (StreamMap.entry storage.streams identity.1).pending[identity.2]? = none := by
    intro absent
    rw [StreamMap.entry, absent]
    exact Std.ExtTreeMap.getElem?_empty
  unfold Storage.markRecordReleased
  cases isState : storage.streams[identity.1]? with
  | none =>
    simp only [Option.bind_none, Except.ok.injEq]
    constructor
    · exact fun same => .inl ⟨noEntry isState, same.symm⟩
    · rintro (⟨-, same⟩ | ⟨state, place, segment, record, marked⟩)
      · exact same.symm
      · cases isState.symm.trans marked.isState
  | some state =>
    have entry : StreamMap.entry storage.streams identity.1 = state := by
      rw [StreamMap.entry, isState]
      rfl
    rw [entry]
    cases isPending : state.pending[identity.2]? with
    | none =>
      simp only [Option.bind_some, isPending, Option.map_none, Except.ok.injEq]
      constructor
      · exact fun same => .inl ⟨trivial, same.symm⟩
      · rintro (⟨-, same⟩ | ⟨other, place, segment, record, marked⟩)
        · exact same.symm
        · cases isState.symm.trans marked.isState
          cases isPending.symm.trans marked.isPending
    | some place =>
      simp only [Option.bind_some, isPending, Option.map_some, Storage.releasePointer,
        bind_eq_ok, orError_eq_ok, sub, pure_eq_ok]
      constructor
      · rintro ⟨segment, found, record, isRecord, _, ⟨counts, rfl⟩, _, ⟨streamBytes, rfl⟩, _,
          ⟨rootRecords, rfl⟩, _, ⟨rootBytes, rfl⟩, rfl⟩
        exact .inr ⟨state, place, segment, record, isState, isPending, found, isRecord, counts,
          streamBytes, rootRecords, rootBytes, rfl⟩
      · rintro (⟨never, -⟩ | ⟨other, otherPlace, segment, record, marked⟩)
        · cases never
        · cases isState.symm.trans marked.isState
          cases isPending.symm.trans marked.isPending
          exact ⟨segment, marked.found, record, marked.isRecord, _, ⟨marked.counts, rfl⟩, _,
            ⟨marked.streamBytes, rfl⟩, _, ⟨marked.rootRecords, rfl⟩, _, ⟨marked.rootBytes, rfl⟩,
            marked.left.symm⟩

theorem Storage.persistHighwater_eq_ok {highwater : StreamHighwater} :
    storage.persistHighwater highwater = .ok next ↔
      ∃ stream, storage.streams[highwater.streamId]? = some stream ∧
        next = { storage with
          streams := storage.streams.insert highwater.streamId
            { stream with persistedHighwater := some highwater.sequence } } := by
  simp only [Storage.persistHighwater, bind_eq_ok, orError_eq_ok, pure_eq_ok, @eq_comm _ next]

theorem Storage.dropSegment_eq_ok :
    storage.dropSegment segmentId = .ok next ↔
      ∃ segment count bytes, storage.segments[segmentId]? = some segment ∧
        storage.reclaimableSegments = count + 1 ∧
        storage.reclaimableBytes = bytes + segment.fileLen ∧
        next = { storage with
          segments := storage.segments.erase segmentId
          reclaimableSegments := count
          reclaimableBytes := bytes } := by
  simp only [Storage.dropSegment, bind_eq_ok, orError_eq_ok, checkedSub_eq_some, pure_eq_ok]
  constructor
  · rintro ⟨segment, found, count, counts, bytes, paid, left⟩
    exact ⟨segment, count, bytes, found, counts, paid, left.symm⟩
  · rintro ⟨segment, count, bytes, found, counts, paid, left⟩
    exact ⟨segment, found, count, counts, bytes, paid, left.symm⟩

/-- A record continues its stream, and its bytes can be counted. -/
theorem indexDurableRecord_iff {path : Artifact} {record : StoredRecord} {ordinal : Nat} :
    indexDurableRecord segmentId path storage (record, ordinal) = .ok next ↔
      ((storage.stream record.streamId).highwater ≠ some wordMax ∧
        record.sequence = ((storage.stream record.streamId).highwater.map
          fun value => saturatingAdd value 1).getD 0) ∧
      (storage.stream record.streamId).pendingPayloadBytes + record.payloadLen ≤ wordMax ∧
      storage.pendingPayloadBytes + record.payloadLen ≤ wordMax ∧
      next = { storage with
        streams := storage.streams.insert record.streamId { storage.stream record.streamId with
          highwater := some record.sequence
          lastSegmentId := some segmentId
          pending := (storage.stream record.streamId).pending.insert record.sequence
            ⟨segmentId, ordinal⟩
          pendingPayloadBytes :=
            (storage.stream record.streamId).pendingPayloadBytes + record.payloadLen }
        durableStreams := if (storage.stream record.streamId).highwater.isNone
          then saturatingAdd storage.durableStreams 1 else storage.durableStreams
        pendingRecords := saturatingAdd storage.pendingRecords 1
        pendingPayloadBytes := storage.pendingPayloadBytes + record.payloadLen } := by
  simp only [indexDurableRecord, bind_eq_ok, ensure_eq_ok, Bool.and_eq_true, decide_eq_true_eq,
    orError_eq_ok, checkedAdd_eq_some, pure_eq_ok]
  constructor
  · rintro ⟨_, continues, _, ⟨rfl, streamRoom⟩, _, ⟨rfl, rootRoom⟩, left⟩
    exact ⟨continues, streamRoom, rootRoom, left.symm⟩
  · rintro ⟨continues, streamRoom, rootRoom, left⟩
    exact ⟨(), continues, _, ⟨rfl, streamRoom⟩, _, ⟨rfl, rootRoom⟩, left.symm⟩

/-- Indexing records changes the streams and their counters only. -/
theorem indexDurableRecords_frame {start : Nat}
    (indexed : storage.indexDurableRecords segmentId start = .ok next) :
    next = { storage with
      streams := next.streams
      durableStreams := next.durableStreams
      pendingRecords := next.pendingRecords
      pendingPayloadBytes := next.pendingPayloadBytes } := by
  simp only [Storage.indexDurableRecords, bind_eq_ok] at indexed
  obtain ⟨segment, -, folded⟩ := indexed
  refine tryFold_induction (fun total : Storage => total = { storage with
    streams := total.streams
    durableStreams := total.durableStreams
    pendingRecords := total.pendingRecords
    pendingPayloadBytes := total.pendingPayloadBytes }) rfl ?_ folded
  rintro total ⟨record, ordinal⟩ following _ before stepped
  obtain ⟨-, -, -, rfl⟩ := indexDurableRecord_iff.mp stepped
  rw [before]

end

/-! ### Rules -/

/-- However the program ends, a part of the state in memory is as it was. -/
def Keeps {γ α : Type} (part : Storage → γ) (program : StorageIo α) : Prop :=
  ∀ world faults, part (program.run world faults).2.1.storage = part world.storage

section Rules

variable {γ α β : Type} {part : Storage → γ} {world final : World} {value : β}

theorem Returns.bind_getStorage {program : Storage → StorageIo β}
    (returned : Returns (getStorage >>= program) world value final) :
    Returns (program world.storage) world value final := by
  obtain ⟨storage, middle, got, rest⟩ := returned.bind
  obtain ⟨rfl, rfl⟩ := got.bind_read.pure
  exact rest

theorem Returns.bind_onDisk {disk : FsIo α} {program : α → StorageIo β}
    (returned : Returns (onDisk disk >>= program) world value final) :
    ∃ found fs, Returns disk world.fs found fs ∧
      Returns (program found) { world with fs := fs } value final := by
  obtain ⟨found, middle, ran, rest⟩ := returned.bind
  obtain ⟨fs, onFs, rfl⟩ := Returns.focus ran
  exact ⟨found, fs, onFs, rest⟩

theorem Returns.bind_modifyStorage {change : Storage → Storage} {program : StorageIo β}
    (returned : Returns (modifyStorage change >>= fun _ => program) world value final) :
    Returns program { world with storage := change world.storage } value final := returned.bind_update

theorem Returns.tryStorage {change : Storage → Except Error Storage} {found : Unit}
    (returned : Returns (tryStorage change) world found final) :
    ∃ changed, change world.storage = .ok changed ∧ final = { world with storage := changed } := by
  obtain ⟨changed, isChanged, returned⟩ := (Returns.bind_getStorage returned).bind_ofExcept
  exact ⟨changed, isChanged, Returns.update returned⟩

theorem Keeps.returns {program : StorageIo β} (keeps : Keeps part program)
    (returned : Returns program world value final) : part final.storage = part world.storage := by
  obtain ⟨faults, -, rfl⟩ := returned
  exact keeps world faults

theorem keeps_result (value : α) : Keeps part (result value) := fun _ _ => rfl

theorem keeps_pure (value : α) : Keeps part (pure value) := keeps_result value

theorem keeps_bind {first : StorageIo α} {next : α → StorageIo β} (head : Keeps part first)
    (tail : ∀ value, Keeps part (next value)) : Keeps part (first >>= next) := by
  intro world faults
  have kept := head world faults
  show part ((andThen first next).run world faults).2.1.storage = _
  simp only [andThen]
  rcases ended : first.run world faults with ⟨outcome, middle, rest⟩
  rw [ended] at kept
  cases outcome with
  | ok between => exact (tail between middle rest).trans kept
  | refused reason => exact kept
  | failed reason => exact kept
  | crashed => exact kept

theorem keeps_getStorage : Keeps part getStorage := fun _ _ => rfl

theorem keeps_onDisk (disk : FsIo α) : Keeps part (onDisk disk) := fun _ _ => rfl

theorem keeps_modifyStorage {change : Storage → Storage}
    (same : ∀ storage, part (change storage) = part storage) : Keeps part (modifyStorage change) :=
  fun world _ => same world.storage

theorem keeps_ofExcept (value : Except Error α) : Keeps part (ofExcept value) := by
  cases value <;> exact fun _ _ => rfl

theorem keeps_ofOption (reason : Error) (value : Option α) : Keeps part (ofOption reason value) := by
  cases value <;> exact fun _ _ => rfl

theorem keeps_require (condition : Bool) (reason : Error) : Keeps part (require condition reason) := by
  cases condition <;> exact fun _ _ => rfl

theorem keeps_tryStorage {change : Storage → Except Error Storage}
    (same : ∀ storage changed, change storage = .ok changed → part changed = part storage) :
    Keeps part (tryStorage change) := by
  intro world faults
  have opened : (tryStorage change).run world faults =
      ((ofExcept (change world.storage) : StorageIo Storage) >>= fun changed =>
        modifyStorage fun _ => changed).run world faults := rfl
  rw [opened]
  cases changed : change world.storage with
  | error reason => rfl
  | ok storage => exact same _ _ changed

theorem keeps_attempt {caught : Error → Bool} {program : StorageIo α} (keeps : Keeps part program) :
    Keeps part (attempt caught program) := by
  intro world faults
  have kept := keeps world faults
  simp only [attempt]
  rcases ended : program.run world faults with ⟨outcome, final, rest⟩
  rw [ended] at kept
  cases outcome <;> exact kept

end Rules

/-! ### The identity and the configuration of an open root -/

/-- What an open root is opened with. -/
def Storage.identity (storage : Storage) : RootId × Config := (storage.rootId, storage.config)

theorem identity_replaceActualFileBytes {previous current : Nat} (storage changed : Storage)
    (replaced : storage.replaceActualFileBytes previous current = .ok changed) :
    changed.identity = storage.identity := by
  simp only [Storage.replaceActualFileBytes, bind_eq_ok, pure_eq_ok] at replaced
  obtain ⟨_, -, rfl⟩ := replaced
  rfl

theorem identity_subtractActualFileBytes {bytes : Nat} (storage changed : Storage)
    (subtracted : storage.subtractActualFileBytes bytes = .ok changed) :
    changed.identity = storage.identity := by
  simp only [Storage.subtractActualFileBytes, bind_eq_ok, pure_eq_ok] at subtracted
  obtain ⟨_, -, rfl⟩ := subtracted
  rfl

theorem identity_indexDurableRecords {segmentId start : Nat} (storage changed : Storage)
    (indexed : storage.indexDurableRecords segmentId start = .ok changed) :
    changed.identity = storage.identity := by
  simp only [Storage.indexDurableRecords, bind_eq_ok] at indexed
  obtain ⟨segment, -, folded⟩ := indexed
  refine tryFold_induction (fun total => total.identity = storage.identity) rfl ?_ folded
  intro total entry next _ kept one
  obtain ⟨-, -, -, rfl⟩ := indexDurableRecord_iff.mp one
  exact kept

theorem identity_markRecordReleased (storage : Storage) (entry : Identity) (changed : Storage)
    (marked : storage.markRecordReleased entry = .ok changed) :
    changed.identity = storage.identity := by
  obtain ⟨-, rfl⟩ | ⟨state, place, segment, record, isMarked⟩ := markRecordReleased_eq_ok.mp marked
  · rfl
  · rw [isMarked.left]
    rfl

theorem identity_persistHighwater (storage : Storage) (highwater : StreamHighwater)
    (changed : Storage) (persisted : storage.persistHighwater highwater = .ok changed) :
    changed.identity = storage.identity := by
  obtain ⟨stream, -, rfl⟩ := Storage.persistHighwater_eq_ok.mp persisted
  rfl

theorem identity_dropSegment {segmentId : Nat} (storage changed : Storage)
    (dropped : storage.dropSegment segmentId = .ok changed) :
    changed.identity = storage.identity := by
  obtain ⟨segment, count, bytes, -, -, -, rfl⟩ := Storage.dropSegment_eq_ok.mp dropped
  rfl

/-- A fold of steps that keep the identity keeps it. -/
theorem identity_tryFold {α : Type} {combine : Storage → α → Except Error Storage} {items : List α}
    (same : ∀ storage item changed, combine storage item = .ok changed →
      changed.identity = storage.identity)
    (storage changed : Storage) (folded : tryFold combine storage items = .ok changed) :
    changed.identity = storage.identity :=
  tryFold_induction (fun total => total.identity = storage.identity) rfl
    (fun total item next _ kept one => (same total item next one).trans kept) folded

section

variable [Hasher]

theorem keeps_appendManifestGroup (bodies : List ManifestBody) (outcome : DurabilityOutcome) :
    Keeps Storage.identity (appendManifestGroup bodies outcome) :=
  keeps_bind keeps_getStorage fun _ => keeps_bind (keeps_ofExcept _) fun _ =>
    keeps_bind (keeps_onDisk _) fun _ => keeps_bind (keeps_modifyStorage fun _ => rfl) fun _ =>
      keeps_bind (keeps_ofExcept _) fun _ => keeps_tryStorage identity_replaceActualFileBytes

theorem keeps_compactManifest : Keeps Storage.identity compactManifest :=
  keeps_bind keeps_getStorage fun _ => keeps_bind (keeps_ofExcept _) fun _ =>
    keeps_bind (keeps_onDisk _) fun _ => keeps_bind (keeps_modifyStorage fun _ => rfl) fun _ =>
      keeps_bind (keeps_ofExcept _) fun _ =>
        keeps_bind (keeps_tryStorage identity_replaceActualFileBytes) fun _ =>
          keeps_modifyStorage fun _ => rfl

theorem keeps_maybeCompactManifest : Keeps Storage.identity maybeCompactManifest := by
  refine keeps_bind keeps_getStorage fun _ => keeps_bind (keeps_ofExcept _) fun _ => ?_
  split
  · exact keeps_bind keeps_compactManifest fun _ => keeps_pure _
  · exact keeps_pure _

theorem keeps_sealActive (reason : SealReason) : Keeps Storage.identity (sealActive reason) := by
  refine keeps_bind keeps_getStorage fun storage => ?_
  split
  · exact keeps_result _
  · refine keeps_bind keeps_getStorage fun _ => keeps_bind (keeps_ofExcept _) fun _ => ?_
    refine keeps_bind (keeps_onDisk _) fun _ => keeps_bind (keeps_modifyStorage fun _ => rfl) fun _ => ?_
    refine keeps_bind (keeps_tryStorage identity_replaceActualFileBytes) fun _ => ?_
    exact keeps_bind (keeps_appendManifestGroup _ _) fun _ => keeps_modifyStorage fun _ => rfl

theorem keeps_sealExpired (clock : Clock) : Keeps Storage.identity (sealExpired clock) := by
  refine keeps_bind keeps_getStorage fun _ => keeps_bind (keeps_ofExcept _) fun _ => ?_
  split
  · exact keeps_bind (keeps_sealActive _) fun _ => keeps_bind keeps_maybeCompactManifest fun _ =>
      keeps_pure _
  · exact keeps_pure _

theorem keeps_rollOver (groupBytes : Nat) (expiry : Clock) :
    Keeps Storage.identity (rollOver groupBytes expiry) := by
  refine keeps_bind keeps_getStorage fun storage => ?_
  split
  · exact keeps_result _
  · refine keeps_bind (keeps_ofExcept _) fun _ => ?_
    split
    · exact keeps_sealActive _
    · refine keeps_bind (keeps_ofExcept _) fun _ => ?_
      split
      · exact keeps_sealActive _
      · exact keeps_result _

theorem keeps_allocateSegmentId : Keeps Storage.identity allocateSegmentId :=
  keeps_bind keeps_getStorage fun _ => keeps_bind (keeps_require _ _) fun _ =>
    keeps_bind (keeps_modifyStorage fun _ => rfl) fun _ => keeps_pure _

theorem keeps_appendGroup (units : List AppendUnit) (expiry creation : Clock) :
    Keeps Storage.identity (appendGroup units expiry creation) := by
  unfold appendGroup
  split
  · exact keeps_result _
  · refine keeps_bind keeps_getStorage fun _ => keeps_bind (keeps_ofOption _ _) fun _ => ?_
    refine keeps_bind (keeps_ofExcept _) fun _ => keeps_bind (keeps_ofExcept _) fun _ => ?_
    refine keeps_bind (keeps_ofExcept _) fun _ => keeps_bind (keeps_ofOption _ _) fun _ => ?_
    refine keeps_bind (keeps_require _ _) fun _ => keeps_bind (keeps_rollOver _ _) fun _ => ?_
    refine keeps_bind ?_ fun _ => keeps_bind (keeps_modifyStorage fun _ => rfl) fun _ => keeps_pure _
    refine keeps_bind keeps_getStorage fun storage => ?_
    split
    · refine keeps_bind keeps_getStorage fun _ => keeps_bind (keeps_ofExcept _) fun _ => ?_
      refine keeps_bind (keeps_onDisk _) fun _ => ?_
      refine keeps_bind (keeps_modifyStorage fun _ => rfl) fun _ => ?_
      refine keeps_bind (keeps_tryStorage identity_indexDurableRecords) fun _ => ?_
      exact keeps_bind (keeps_tryStorage identity_replaceActualFileBytes) fun _ => keeps_pure _
    · refine keeps_bind keeps_allocateSegmentId fun _ => keeps_bind (keeps_ofExcept _) fun _ => ?_
      refine keeps_bind keeps_getStorage fun _ => keeps_bind (keeps_onDisk _) fun _ => ?_
      refine keeps_bind (keeps_modifyStorage fun _ => rfl) fun _ => ?_
      refine keeps_bind (keeps_tryStorage identity_indexDurableRecords) fun _ => ?_
      exact keeps_bind (keeps_tryStorage identity_replaceActualFileBytes) fun _ => keeps_pure _

theorem keeps_releaseGroup (units : List ReleaseUnit) :
    Keeps Storage.identity (releaseGroup units) := by
  refine keeps_bind keeps_getStorage fun _ => keeps_bind (keeps_ofExcept _) fun _ => ?_
  split
  · exact keeps_result _
  · refine keeps_bind (keeps_appendManifestGroup _ _) fun _ => ?_
    refine keeps_bind (keeps_modifyStorage fun _ => rfl) fun _ => ?_
    refine keeps_bind (keeps_tryStorage (identity_tryFold identity_markRecordReleased)) fun _ => ?_
    exact keeps_bind keeps_maybeCompactManifest fun _ => keeps_pure _

theorem keeps_removeSegments (segments : List Nat) :
    Keeps Storage.identity (removeSegments segments) := by
  induction segments with
  | nil => exact keeps_result _
  | cons segmentId rest ih =>
    refine keeps_bind keeps_getStorage fun _ => keeps_bind (keeps_ofOption _ _) fun _ => ?_
    refine keeps_bind (keeps_tryStorage identity_dropSegment) fun _ => ?_
    exact keeps_bind (keeps_onDisk _) fun _ => keeps_bind ih fun _ => keeps_pure _

theorem keeps_reclaimBatch (eligible : List Nat) : Keeps Storage.identity (reclaimBatch eligible) := by
  unfold reclaimBatch
  split
  · exact keeps_result _
  · refine keeps_bind keeps_getStorage fun _ => keeps_bind (keeps_ofExcept _) fun _ => ?_
    refine keeps_bind (keeps_appendManifestGroup _ _) fun _ => ?_
    refine keeps_bind (keeps_tryStorage (identity_tryFold identity_persistHighwater)) fun _ => ?_
    refine keeps_bind (keeps_removeSegments _) fun _ => keeps_bind (keeps_onDisk _) fun _ => ?_
    refine keeps_bind (keeps_tryStorage identity_subtractActualFileBytes) fun _ => ?_
    exact keeps_bind (keeps_modifyStorage fun _ => rfl) fun _ => keeps_pure _

theorem keeps_reclaimBatches (report : ReclaimReport) (batches : List (List Nat)) :
    Keeps Storage.identity (reclaimBatches report batches) := by
  induction batches generalizing report with
  | nil => exact keeps_result _
  | cons batch rest ih => exact keeps_bind (keeps_reclaimBatch batch) fun _ => ih _

theorem keeps_reclaim (kind : ReclaimKind) : Keeps Storage.identity (reclaim kind) := by
  refine keeps_bind ?_ fun _ => keeps_bind keeps_getStorage fun _ => ?_
  · refine keeps_bind keeps_getStorage fun storage => ?_
    split
    · exact keeps_result _
    · refine keeps_bind (keeps_ofExcept _) fun _ => ?_
      split
      · exact keeps_sealActive _
      · exact keeps_result _
  · refine keeps_bind (keeps_reclaimBatches _ _) fun _ => ?_
    refine keeps_bind ?_ fun _ => keeps_bind (keeps_modifyStorage fun _ => rfl) fun _ => keeps_pure _
    refine keeps_bind keeps_getStorage fun _ => ?_
    split
    · exact keeps_compactManifest
    · exact keeps_bind keeps_maybeCompactManifest fun _ => keeps_pure _

end

end Camus
