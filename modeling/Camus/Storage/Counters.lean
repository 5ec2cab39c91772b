/-
**The counters of streams and pending records are exact.**

An open root counts its durable streams, its pending records and their payload bytes, in all and for
each stream. The counters are changed by appends and releases and computed anew by an open. Here: in
every reachable state they are what a recount gives.

* `CountView.Counted` — the counters up to saturation at the greatest word; kept while the records of
  a group are indexed (`counted_indexDurableRecord`).
* `pendingCount_le` — there are at most as many pending records as records in the live segments, and
  those take bytes of the counted files; so no counter saturates.
* `counters_moves` — every change of an open root keeps the counters exact.
-/

import Camus.Storage.Reclamation

namespace Camus

open Codec Checked Disk FaultIo Result Std

variable {segmentId ordinal start total : Nat} {segments : SegmentMap} {record : StoredRecord}

/-! ### Recounting -/

/-- The payload length of the record at a place. -/
def payloadAt (segments : SegmentMap) (pointer : RecordPointer) : Nat :=
  ((segments[pointer.segmentId]?.bind fun segment => segment.records[pointer.ordinal]?).map
    (·.payloadLen)).getD 0

theorem payloadAt_of_placed (placed : Placed segments segmentId ordinal record) :
    payloadAt segments ⟨segmentId, ordinal⟩ = record.payloadLen := by
  obtain ⟨segment, found, isRecord⟩ := placed
  simp only [payloadAt]
  rw [found, Option.bind_some, isRecord]
  rfl

/-- The payload bytes of the pending records of a stream. -/
def StreamState.recountBytes (segments : SegmentMap) (stream : StreamState) : Nat :=
  Maps.sum (fun _ pointer => payloadAt segments pointer) stream.pending

/-- The streams with a durable record. -/
def durableCount (streams : StreamMap) : Nat :=
  (Maps.values streams).countP fun stream => stream.highwater.isSome

/-- The pending records of all streams. -/
def pendingCount (streams : StreamMap) : Nat := Maps.sum (fun _ stream => stream.pending.size) streams

/-- The payload bytes all streams count. -/
def pendingBytes (streams : StreamMap) : Nat :=
  Maps.sum (fun _ stream => stream.pendingPayloadBytes) streams

/-- What the counters are about. -/
structure CountView where
  segments : SegmentMap
  streams : StreamMap
  durableStreams : Nat
  pendingRecords : Nat
  pendingPayloadBytes : Nat

/-- The counters of an open root. -/
def Storage.countView (storage : Storage) : CountView where
  segments := storage.segments
  streams := storage.streams
  durableStreams := storage.durableStreams
  pendingRecords := storage.pendingRecords
  pendingPayloadBytes := storage.pendingPayloadBytes

/-- The counters up to saturation. -/
structure CountView.Counted (view : CountView) : Prop where
  durable : view.durableStreams = min (durableCount view.streams) wordMax
  records : view.pendingRecords = min (pendingCount view.streams) wordMax
  bytes : view.pendingPayloadBytes = pendingBytes view.streams
  each : ∀ streamId, (view.streams.entry streamId).pendingPayloadBytes =
    (view.streams.entry streamId).recountBytes view.segments

/-- **The counters are exact.** -/
structure CountView.Exact (view : CountView) : Prop where
  durable : view.durableStreams = durableCount view.streams
  records : view.pendingRecords = pendingCount view.streams
  bytes : view.pendingPayloadBytes = pendingBytes view.streams
  each : ∀ streamId, (view.streams.entry streamId).pendingPayloadBytes =
    (view.streams.entry streamId).recountBytes view.segments

/-- A sum over streams is the part of one stream and the rest. -/
theorem sum_entry {measure : StreamState → Nat} (nothing : measure .default = 0) (streams : StreamMap)
    (streamId : StreamId) : Maps.sum (fun _ stream => measure stream) streams =
      measure (streams.entry streamId) +
        Maps.sum (fun _ stream => measure stream) (streams.erase streamId) := by
  unfold StreamMap.entry
  cases found : streams[streamId]? with
  | none => rw [Option.getD_none, nothing, Nat.zero_add, Maps.sum_of_absent found]
  | some stream => exact Maps.sum_of_found found

theorem durableCount_eq_sum (streams : StreamMap) : durableCount streams =
    Maps.sum (fun _ (stream : StreamState) => if stream.highwater.isSome then 1 else 0) streams :=
  Maps.countP_values_eq_sum _ streams

section Streams

variable {streams : StreamMap} {streamId : StreamId} {state : StreamState}

/-- How the counts change with the state of one stream. -/
theorem durableCount_insert :
    durableCount (streams.insert streamId state) +
        (if (streams.entry streamId).highwater.isSome then 1 else 0) =
      durableCount streams + (if state.highwater.isSome then 1 else 0) := by
  rw [durableCount_eq_sum, durableCount_eq_sum, Maps.sum_insert,
    @sum_entry (fun stream => if stream.highwater.isSome then 1 else 0) rfl streams streamId]
  omega

theorem pendingCount_insert :
    pendingCount (streams.insert streamId state) + (streams.entry streamId).pending.size =
      pendingCount streams + state.pending.size := by
  rw [pendingCount, pendingCount, Maps.sum_insert,
    @sum_entry (fun stream => stream.pending.size) (by simp [StreamState.default]) streams streamId]
  omega

theorem pendingBytes_insert :
    pendingBytes (streams.insert streamId state) + (streams.entry streamId).pendingPayloadBytes =
      pendingBytes streams + state.pendingPayloadBytes := by
  rw [pendingBytes, pendingBytes, Maps.sum_insert,
    @sum_entry (fun stream => stream.pendingPayloadBytes) rfl streams streamId]
  omega

end Streams

namespace CountView.Counted

variable {view : CountView}

/-- Without saturation the counters are exact. -/
theorem exact (counted : view.Counted) (durable : durableCount view.streams ≤ wordMax)
    (records : pendingCount view.streams ≤ wordMax) : view.Exact where
  durable := by rw [counted.durable, min_eq_left durable]
  records := by rw [counted.records, min_eq_left records]
  bytes := counted.bytes
  each := counted.each

end CountView.Counted

namespace CountView.Exact

variable {view : CountView}

/-- An exact counter that was never at the greatest word is exact up to saturation. -/
theorem counted (exact : view.Exact) (durable : durableCount view.streams ≤ wordMax)
    (records : pendingCount view.streams ≤ wordMax) : view.Counted where
  durable := by rw [exact.durable, min_eq_left durable]
  records := by rw [exact.records, min_eq_left records]
  bytes := exact.bytes
  each := exact.each

/-- The counters say nothing of what the manifest has persisted. -/
theorem onStreams (exact : view.Exact) {streams : StreamMap} (same : SameStreams view.streams streams) :
    ({ view with streams := streams } : CountView).Exact := by
  have entries : ∀ {measure : StreamState → Nat},
      (∀ stream : StreamState, measure stream.logical = measure stream) →
        Maps.sum (fun _ stream => measure stream) streams =
          Maps.sum (fun _ stream => measure stream) view.streams := by
    intro measure logical
    refine Maps.sum_eq_of_entries fun streamId => ?_
    have equal := congrArg (Option.map measure) (same streamId)
    rw [Option.map_map, Option.map_map] at equal
    have comp : measure ∘ StreamState.logical = measure := funext logical
    rwa [comp] at equal
  have logicals : ∀ streamId, (StreamMap.entry streams streamId).logical =
      (view.streams.entry streamId).logical := by
    intro streamId
    have equal := same streamId
    unfold StreamMap.entry
    cases found : streams[streamId]? <;> cases was : view.streams[streamId]? <;>
      simp [found, was] at equal <;> simp_all
  exact {
    durable := by
      show view.durableStreams = durableCount streams
      rw [exact.durable, durableCount_eq_sum, durableCount_eq_sum]
      exact (@entries (fun stream => if stream.highwater.isSome then 1 else 0) fun _ => rfl).symm
    records := exact.records.trans (@entries (fun stream => stream.pending.size) fun _ => rfl).symm
    bytes := exact.bytes.trans (@entries (fun stream => stream.pendingPayloadBytes) fun _ => rfl).symm
    each := fun streamId => by
      have bytes := congrArg StreamState.pendingPayloadBytes (logicals streamId)
      have pending := congrArg (StreamState.recountBytes view.segments) (logicals streamId)
      exact (bytes.trans (exact.each streamId)).trans pending.symm }

/-- The counters say nothing of records that are not pending. -/
theorem onSegments (exact : view.Exact)
    (same : ∀ (streamId : StreamId) (sequence : Nat) (pointer : RecordPointer),
      (view.streams.entry streamId).pending[sequence]? = some pointer →
        payloadAt segments pointer = payloadAt view.segments pointer) :
    ({ view with segments := segments } : CountView).Exact :=
  { exact with
    each := fun streamId => by
      refine (exact.each streamId).trans (Maps.sum_eq_of_entries fun sequence => ?_)
      cases found : (view.streams.entry streamId).pending[sequence]? with
      | none => rfl
      | some pointer => exact congrArg some (same streamId sequence pointer found).symm }

end CountView.Exact

/-! ### Nothing saturates -/

/-- **Pending records are records of live segments.** -/
theorem pendingCount_le {view : IndexView} (sound : view.Sound) :
    pendingCount view.streams ≤
      segmentSum (fun segment => segment.records.length) view.segments view.nextSegmentId := by
  let places : List RecordPointer := (List.range view.nextSegmentId).flatMap fun segmentId =>
    (List.range ((view.segments[segmentId]?.map fun segment => segment.records.length).getD 0)).map
      fun ordinal => ⟨segmentId, ordinal⟩
  let pointers : List RecordPointer := view.streams.toList.flatMap fun entry =>
    entry.2.pending.toList.map (·.2)
  have placesLength : places.length = segmentSum (fun segment => segment.records.length)
      view.segments view.nextSegmentId := by
    simp only [places, List.length_flatMap, List.length_map, List.length_range, segmentSum]
    have range : Finset.range view.nextSegmentId = (List.range view.nextSegmentId).toFinset := by
      ext segmentId
      simp
    rw [range, List.sum_toFinset _ List.nodup_range]
  have pointersLength : pointers.length = pendingCount view.streams := by
    simp only [pointers, List.length_flatMap, List.length_map, pendingCount, Maps.sum,
      ExtTreeMap.length_toList]
  rw [← placesLength, ← pointersLength]
  -- a pointer belongs to one stream and one sequence: those of the record it points to
  have owner : ∀ entry ∈ view.streams.toList, ∀ place ∈ entry.2.pending.toList,
      ∃ record, Placed view.segments place.2.segmentId place.2.ordinal record ∧
        record.streamId = entry.1 ∧ record.sequence = place.1 := by
    intro entry isEntry place isPlace
    have found : view.streams[entry.1]? = some entry.2 :=
      ExtTreeMap.mem_toList_iff_getElem?_eq_some.mp isEntry
    have isPending : (view.streams.entry entry.1).pending[place.1]? = some place.2 := by
      rw [StreamMap.entry, found]
      exact ExtTreeMap.mem_toList_iff_getElem?_eq_some.mp isPlace
    obtain ⟨-, record, placed, isStream, isSequence, -⟩ := sound.indexes.place _ _ _ isPending
    exact ⟨record, placed, isStream, isSequence⟩
  refine List.Nodup.length_le_of_subset (List.nodup_flatMap.mpr ⟨?_, ?_⟩) ?_
  · intro entry isEntry
    refine List.Nodup.map_on ?_ (Maps.nodup_toList _)
    intro left isLeft right isRight same
    obtain ⟨record, placed, -, sequence⟩ := owner entry isEntry left isLeft
    obtain ⟨other, otherPlaced, -, otherSequence⟩ := owner entry isEntry right isRight
    rw [← same] at otherPlaced
    obtain rfl := placed.unique otherPlaced
    exact Prod.ext (sequence.symm.trans otherSequence) same
  · have distinct := ExtTreeMap.distinct_keys_toList (t := view.streams)
    refine distinct.imp_of_mem ?_
    intro left right isLeft isRight different pointer inLeft inRight
    obtain ⟨first, isFirst, rfl⟩ := List.mem_map.mp inLeft
    obtain ⟨second, isSecond, same⟩ := List.mem_map.mp inRight
    obtain ⟨record, placed, stream, -⟩ := owner left isLeft first isFirst
    obtain ⟨other, otherPlaced, otherStream, -⟩ := owner right isRight second isSecond
    rw [same] at otherPlaced
    obtain rfl := placed.unique otherPlaced
    rw [← stream, ← otherStream] at different
    exact different ReflCmp.compare_self
  · intro pointer member
    obtain ⟨entry, isEntry, inside⟩ := List.mem_flatMap.mp member
    obtain ⟨place, isPlace, rfl⟩ := List.mem_map.mp inside
    obtain ⟨record, ⟨segment, found, isRecord⟩, -, -⟩ := owner entry isEntry place isPlace
    refine List.mem_flatMap.mpr ⟨place.2.segmentId, List.mem_range.mpr (sound.identity_of_found found),
      List.mem_map.mpr ⟨place.2.ordinal, List.mem_range.mpr ?_, rfl⟩⟩
    rw [found]
    exact (List.getElem?_eq_some_iff.mp isRecord).1

theorem durableCount_le_size (streams : StreamMap) : durableCount streams ≤ streams.size := by
  have bound := List.countP_le_length (l := Maps.values streams)
    (p := fun stream : StreamState => stream.highwater.isSome)
  rwa [Maps.values, List.length_map, ExtTreeMap.length_toList] at bound

/-- **No counter of an open root saturates.** -/
theorem counts_le {storage : Storage} (sound : storage.indexView.Sound)
    (balanced : storage.bookView.Balanced) :
    durableCount storage.streams ≤ wordMax ∧ pendingCount storage.streams ≤ wordMax := by
  have records : segmentSum (fun segment => segment.records.length) storage.segments
      storage.nextSegmentId ≤ segmentSum Segment.fileLen storage.segments storage.nextSegmentId := by
    have less : 16 * segmentSum (fun segment => segment.records.length) storage.segments
      storage.nextSegmentId ≤ segmentSum Segment.fileLen storage.segments storage.nextSegmentId :=
        balanced.segmentSum_le
    omega
  have books : rootSuperblockLen + storage.bookView.control +
    segmentSum Segment.fileLen storage.segments storage.nextSegmentId = storage.actualFileBytes :=
      balanced.books
  have bounded : storage.actualFileBytes ≤ wordMax := balanced.bounded
  constructor
  · have streams : rootSuperblockLen + checkpointBytes storage.streams.size + manifestLogHeaderLen +
        segmentSum Segment.fileLen storage.segments storage.nextSegmentId ≤
          storage.actualFileBytes + 16 * segmentSum (fun segment => segment.records.length)
            storage.segments storage.nextSegmentId := balanced.covers_streams sound.identities
    have less : 16 * segmentSum (fun segment => segment.records.length) storage.segments
      storage.nextSegmentId ≤ segmentSum Segment.fileLen storage.segments storage.nextSegmentId :=
        balanced.segmentSum_le
    have size := durableCount_le_size storage.streams
    have entries : storage.streams.size ≤ checkpointBytes storage.streams.size := by
      unfold checkpointBytes
      omega
    omega
  · have pending := pendingCount_le sound
    have pending : pendingCount storage.streams ≤ segmentSum (fun segment => segment.records.length)
      storage.segments storage.nextSegmentId := pending
    omega

/-! ### Indexing and releasing -/

theorem min_succ_min (count bound : Nat) : min (min count bound + 1) bound = min (count + 1) bound := by
  omega

theorem counted_indexDurableRecord {path : Artifact} {storage next : Storage}
    (placed : Placed storage.segments segmentId ordinal record)
    (new : (StreamMap.entry storage.streams record.streamId).pending[record.sequence]? = none)
    (indexed : indexDurableRecord segmentId path storage (record, ordinal) = .ok next)
    (counted : storage.countView.Counted) : next.countView.Counted := by
  obtain ⟨-, -, -, rfl⟩ := indexDurableRecord_iff.mp indexed
  let state : StreamState := { storage.stream record.streamId with
    highwater := some record.sequence
    lastSegmentId := some segmentId
    pending := (storage.stream record.streamId).pending.insert record.sequence ⟨segmentId, ordinal⟩
    pendingPayloadBytes :=
      (storage.stream record.streamId).pendingPayloadBytes + record.payloadLen }
  have absent : record.sequence ∉ (storage.stream record.streamId).pending := by
    rw [ExtTreeMap.mem_iff_isSome_getElem?]
    have new : (storage.stream record.streamId).pending[record.sequence]? = none := new
    simp [new]
  have durable := @durableCount_insert storage.streams record.streamId state
  have records := @pendingCount_insert storage.streams record.streamId state
  have bytes := @pendingBytes_insert storage.streams record.streamId state
  have size : state.pending.size = (storage.stream record.streamId).pending.size + 1 := by
    show ((storage.stream record.streamId).pending.insert record.sequence _).size = _
    rw [ExtTreeMap.size_insert, if_neg fun member => absent (ExtTreeMap.mem_iff_contains.mpr member)]
  have entry : StreamMap.entry storage.streams record.streamId = storage.stream record.streamId := rfl
  have wasDurable : storage.durableStreams = min (durableCount storage.streams) wordMax :=
    counted.durable
  have wasRecords : storage.pendingRecords = min (pendingCount storage.streams) wordMax :=
    counted.records
  have wasBytes : storage.pendingPayloadBytes = pendingBytes storage.streams := counted.bytes
  exact
    { durable := by
        show (if (storage.stream record.streamId).highwater.isNone
          then saturatingAdd storage.durableStreams 1 else storage.durableStreams) =
            min (durableCount (storage.streams.insert record.streamId state)) wordMax
        rw [entry] at durable
        cases isHighwater : (storage.stream record.streamId).highwater with
        | none =>
          have one : durableCount (storage.streams.insert record.streamId state) =
              durableCount storage.streams + 1 := by
            simpa [isHighwater, state] using durable
          show saturatingAdd storage.durableStreams 1 = _
          rw [wasDurable, one]
          exact min_succ_min _ _
        | some highwater =>
          have same : durableCount (storage.streams.insert record.streamId state) =
              durableCount storage.streams := by
            simpa [isHighwater, state] using durable
          show storage.durableStreams = _
          rw [wasDurable, same]
      records := by
        show saturatingAdd storage.pendingRecords 1 =
          min (pendingCount (storage.streams.insert record.streamId state)) wordMax
        rw [entry, size] at records
        have one : pendingCount (storage.streams.insert record.streamId state) =
          pendingCount storage.streams + 1 := by omega
        rw [wasRecords, one]
        exact min_succ_min _ _
      bytes := by
        show storage.pendingPayloadBytes + record.payloadLen =
          pendingBytes (storage.streams.insert record.streamId state)
        have added : state.pendingPayloadBytes =
          (storage.stream record.streamId).pendingPayloadBytes + record.payloadLen := rfl
        rw [entry, added] at bytes
        omega
      each := fun streamId => by
        show (StreamMap.entry (storage.streams.insert record.streamId state)
          streamId).pendingPayloadBytes = (StreamMap.entry (storage.streams.insert record.streamId
            state) streamId).recountBytes storage.segments
        rw [StreamMap.entry_insert]
        split
        · have before : (storage.stream record.streamId).pendingPayloadBytes =
            (storage.stream record.streamId).recountBytes storage.segments :=
              counted.each record.streamId
          show (storage.stream record.streamId).pendingPayloadBytes + record.payloadLen =
            Maps.sum _ ((storage.stream record.streamId).pending.insert _ _)
          have new : (storage.stream record.streamId).pending[record.sequence]? = none := new
          rw [Maps.sum_insert, Maps.sum_of_absent new, payloadAt_of_placed placed, before, Nat.add_comm]
          rfl
        · exact counted.each streamId }

/-- Only the lengths of the records of a segment matter. -/
theorem payloadAt_insert {segment next : Segment} (found : segments[segmentId]? = some segment)
    (same : ∀ ordinal : Nat, next.records[ordinal]?.map (·.payloadLen) =
      segment.records[ordinal]?.map (·.payloadLen)) (pointer : RecordPointer) :
    payloadAt (segments.insert segmentId next) pointer = payloadAt segments pointer := by
  unfold payloadAt
  by_cases isHere : segmentId = pointer.segmentId
  · rw [← isHere, ExtTreeMap.getElem?_insert_self, found, Option.bind_some, Option.bind_some, same]
  · rw [Maps.getElem?_insert_of_ne isHere]

/-- A pending record that stays at its place keeps its length. -/
theorem payloadAt_of_stays {view : IndexView} (sound : view.Sound) {after : SegmentMap}
    (stays : ∀ {segmentId ordinal : Nat} {record : StoredRecord},
      Placed view.segments segmentId ordinal record → record.released = false →
        Placed after segmentId ordinal record)
    {streamId : StreamId} {sequence : Nat} {pointer : RecordPointer}
    (isPending : (view.streams.entry streamId).pending[sequence]? = some pointer) :
    payloadAt after pointer = payloadAt view.segments pointer := by
  obtain ⟨-, record, placed, -, -, unreleased⟩ := sound.indexes.place streamId sequence pointer isPending
  rw [payloadAt_of_placed placed, payloadAt_of_placed (stays placed unreleased)]

theorem counters_markRecordReleased {storage next : Storage} {identity : Identity}
    (exact : storage.countView.Exact) (marks : storage.markRecordReleased identity = .ok next) :
    next.countView.Exact := by
  rcases markRecordReleased_eq_ok.mp marks with ⟨-, rfl⟩ | ⟨state, place, segment, record, marked⟩
  · exact exact
  let left : StreamState := { state with
    pending := state.pending.erase identity.2
    pendingPayloadBytes := state.pendingPayloadBytes - record.payloadLen }
  have entry := marked.entry
  have isPending := marked.isPending
  have durable := @durableCount_insert storage.streams identity.1 left
  have records := @pendingCount_insert storage.streams identity.1 left
  have bytes := @pendingBytes_insert storage.streams identity.1 left
  rw [entry] at durable records bytes
  have size : state.pending.size = left.pending.size + 1 := Maps.size_of_found isPending
  have payload : payloadAt storage.segments place = record.payloadLen :=
    payloadAt_of_placed ⟨segment, marked.found, marked.isRecord⟩
  have same : ∀ ordinal : Nat, (segment.releaseRecord place.ordinal
      (segment.unreleasedRecords - 1)).records[ordinal]?.map (·.payloadLen) =
        segment.records[ordinal]?.map (·.payloadLen) := by
    intro ordinal
    simp only [Segment.releaseRecord, List.getElem?_modify]
    cases segment.records[ordinal]? with
    | none => rfl
    | some other =>
      simp only [Option.map_some]
      split <;> rfl
  have released : ({ storage.countView with
      segments := storage.segments.insert place.segmentId
        (segment.releaseRecord place.ordinal (segment.unreleasedRecords - 1)) } : CountView).Exact :=
    exact.onSegments fun _ _ pointer _ => payloadAt_insert marked.found same pointer
  have streamBytes := marked.streamBytes
  have rootBytes := marked.rootBytes
  have wasRecords : storage.pendingRecords = pendingCount storage.streams := exact.records
  have wasBytes : storage.pendingPayloadBytes = pendingBytes storage.streams := exact.bytes
  rw [marked.left]
  exact
    { durable := by
        show storage.durableStreams = durableCount (storage.streams.insert identity.1 left)
        have was : storage.durableStreams = durableCount storage.streams := exact.durable
        have equal : durableCount (storage.streams.insert identity.1 left) =
          durableCount storage.streams := Nat.add_right_cancel durable
        rw [was, equal]
      records := by
        show storage.pendingRecords - 1 = pendingCount (storage.streams.insert identity.1 left)
        omega
      bytes := by
        show storage.pendingPayloadBytes - record.payloadLen =
          pendingBytes (storage.streams.insert identity.1 left)
        have less : left.pendingPayloadBytes = state.pendingPayloadBytes - record.payloadLen := rfl
        omega
      each := fun streamId => by
        show (StreamMap.entry (storage.streams.insert identity.1 left)
          streamId).pendingPayloadBytes = (StreamMap.entry (storage.streams.insert identity.1 left)
            streamId).recountBytes _
        rw [StreamMap.entry_insert]
        split
        · have before := released.each identity.1
          have before : (StreamMap.entry storage.streams identity.1).pendingPayloadBytes =
            (StreamMap.entry storage.streams identity.1).recountBytes _ := before
          rw [entry, StreamState.recountBytes, Maps.sum_of_found isPending,
            payloadAt_insert marked.found same, payload] at before
          show state.pendingPayloadBytes - record.payloadLen = _
          rw [before, Nat.add_sub_cancel_left]
          rfl
        · exact released.each streamId }

/-- What a group adds to the segments, before it is indexed. -/
theorem counters_inserted {storage : Storage} {segmentId : Nat} {next : Segment}
    (sound : storage.indexView.Sound) (exact : storage.countView.Exact)
    (kept : ∀ segment, storage.segments[segmentId]? = some segment →
      segment.records <+: next.records) :
    ({ storage.countView with segments := storage.segments.insert segmentId next } :
      CountView).Exact := by
  refine exact.onSegments fun streamId sequence pointer isPending => ?_
  refine payloadAt_of_stays sound (fun {otherId ordinal record} placed _ => ?_) isPending
  obtain ⟨segment, found, isRecord⟩ := placed
  have found : storage.segments[otherId]? = some segment := found
  by_cases same : segmentId = otherId
  · subst same
    obtain ⟨more, whole⟩ := kept segment found
    refine ⟨next, ExtTreeMap.getElem?_insert_self, ?_⟩
    rw [← whole, List.getElem?_append_left (List.getElem?_eq_some_iff.mp isRecord).1]
    exact isRecord
  · exact ⟨segment, (Maps.getElem?_insert_of_ne same).trans found, isRecord⟩

section

variable [Hasher] {world final : World}

theorem counters_sealSegment {reason : SealReason} {value : Unit}
    (exact : world.storage.countView.Exact)
    (returned : Returns (sealSegment segmentId reason) world value final) :
    final.storage.countView.Exact := by
  obtain ⟨segment, sealed, footer, manifest, bytes, first, last, found, seals, -, -, -, rfl⟩ :=
    returns_sealSegment returned
  obtain ⟨shape, -⟩ := returns_sealData seals
  have records : sealed.records = segment.records := by rw [shape]
  exact exact.onSegments fun _ _ pointer _ => payloadAt_insert found (fun _ => by rw [records]) pointer

theorem counters_writeGroup {epochs : List Epoch} {creation : Clock} {ids : List (List RecordId)}
    (sound : world.storage.indexView.Sound) (balanced : world.storage.bookView.Balanced)
    (exact : world.storage.countView.Exact)
    (valid : ∀ epoch ∈ epochs, epoch.Valid)
    (room : ∀ epoch ∈ epochs, ∀ highwater,
      world.storage.streamHighwater epoch.streamId = some highwater → highwater < wordMax)
    (returned : Returns (writeGroup (epochs.map Epoch.prepared) creation) world ids final) :
    final.storage.countView.Counted := by
  obtain ⟨durable, records⟩ := counts_le sound balanced
  rcases returns_writeGroup returned with ⟨active, segment, appended, indexed, -, extended⟩ |
    ⟨segment, indexed, -, created⟩
  · obtain ⟨-, shape, -⟩ := returns_segmentAppend valid extended.appends
    have isFound : world.storage.segments[active]? = some segment := extended.found
    have inserted := @counters_inserted _ active appended sound exact fun other isOther => by
      cases isFound.symm.trans isOther
      rw [shape]
      exact List.prefix_append _ _
    have indexable := extended.indexable sound valid room
    obtain ⟨counted, -⟩ := @Indexes.indexDurableRecords_rule (fun total => total.countView.Counted)
      _ _ _ _ _ extended.indexes indexable.found indexable.indexes indexable.unreleased
      indexable.roomy (inserted.counted durable records) fun placed new stepped before =>
        counted_indexDurableRecord placed new stepped before
    rw [extended.left]
    exact counted
  · have inserted := @counters_inserted _ world.storage.nextSegmentId segment sound exact
      fun other isOther => absurd (sound.identity_of_found isOther) (Nat.lt_irrefl _)
    have indexable := created.indexable sound valid room
    obtain ⟨counted, -⟩ := @Indexes.indexDurableRecords_rule (fun total => total.countView.Counted)
      _ _ _ _ _ created.indexes indexable.found indexable.indexes indexable.unreleased
      indexable.roomy (inserted.counted durable records) fun placed new stepped before =>
        counted_indexDurableRecord placed new stepped before
    rw [created.left]
    exact counted

theorem counters_reclaimBatch {eligible : List Nat} {report : ReclaimReport}
    (finalSound : final.storage.indexView.Sound) (exact : world.storage.countView.Exact)
    (returned : Returns (reclaimBatch eligible) world report final) :
    final.storage.countView.Exact := by
  obtain ⟨shrinks, -⟩ := shrinks_reclaimBatch returned
  have counters := shrinks.counters
  simp only [Storage.counters, Prod.mk.injEq] at counters
  obtain ⟨durable, records, bytes⟩ := counters
  have onStreams := exact.onStreams shrinks.streams
  have view : final.storage.countView = ⟨final.storage.segments, final.storage.streams,
      world.storage.durableStreams, world.storage.pendingRecords,
      world.storage.pendingPayloadBytes⟩ := by
    simp only [Storage.countView]
    rw [durable, records, bytes]
  rw [view]
  refine onStreams.onSegments fun streamId sequence pointer isPending => ?_
  refine (payloadAt_of_stays finalSound (fun {segmentId ordinal record} placed _ => ?_) isPending).symm
  obtain ⟨segment, found, isRecord⟩ := placed
  have found : final.storage.segments[segmentId]? = some segment := found
  rw [shrinks.segments] at found
  split at found
  · cases found
  · exact ⟨segment, found, isRecord⟩

/-- **Every change of an open root keeps the counters exact.** -/
theorem counters_moves (sound : world.storage.indexView.Sound)
    (balanced : world.storage.bookView.Balanced) (exact : world.storage.countView.Exact)
    (moves : Moves world final) : final.storage.countView.Exact := by
  have finalSound := sound_moves sound moves
  have finalBalanced := balanced_moves sound balanced moves
  cases moves with
  | seals active returned => exact counters_sealSegment exact returned
  | writes valid room returned =>
    obtain ⟨durable, records⟩ := counts_le finalSound finalBalanced
    exact (counters_writeGroup sound balanced exact valid room returned).exact durable records
  | announces _ _ => exact exact
  | marks marked => exact counters_markRecordReleased exact marked
  | reclaims _ returned => exact counters_reclaimBatch finalSound exact returned
  | compacts returned =>
    obtain ⟨-, same, -⟩ := compacted_compactManifest returned
    obtain ⟨manifest, fs, bytes, maintenance, -, -, rfl⟩ := returns_compactManifest returned
    exact exact.onStreams same
  | notes => exact exact

end

/-! ### Opening -/

/-- The pending bytes while the records of the segments are indexed: no place is counted twice. -/
theorem indexSegments_bytes {start final : StreamMap}
    (unique : ∀ segmentId ordinal record otherId otherOrdinal other,
      Placed segments segmentId ordinal record → Placed segments otherId otherOrdinal other →
      record.streamId = other.streamId → record.sequence = other.sequence →
        segmentId = otherId ∧ ordinal = otherOrdinal)
    (pending : ∀ streamId, (start.entry streamId).pending = ∅)
    (unpaid : ∀ streamId, (start.entry streamId).pendingPayloadBytes = 0)
    (folded : tryFold indexSegment start segments.toList = .ok final) (streamId : StreamId) :
    (final.entry streamId).pendingPayloadBytes = (final.entry streamId).recountBytes segments := by
  have all := @indexSegments_induction segments start final
    (fun done streams =>
      (∀ streamId, (streams.entry streamId).pendingPayloadBytes =
        (streams.entry streamId).recountBytes segments) ∧
      ∀ (streamId : StreamId) (sequence : Nat) (pointer : RecordPointer),
        (streams.entry streamId).pending[sequence]? = some pointer →
          done pointer.segmentId pointer.ordinal ∧
          ∃ record, Placed segments pointer.segmentId pointer.ordinal record ∧
            record.streamId = streamId ∧ record.sequence = sequence)
    ?_ ?_ ?_ folded
  · exact all.1 streamId
  · rintro done later streams ⟨bytes, places⟩ same
    refine ⟨bytes, fun streamId sequence pointer isPending => ?_⟩
    obtain ⟨isDone, record, placed, rest⟩ := places streamId sequence pointer isPending
    exact ⟨(same _ _ record placed).mpr isDone, record, placed, rest⟩
  · refine ⟨fun streamId => ?_, fun streamId sequence pointer isPending => ?_⟩
    · rw [unpaid, StreamState.recountBytes, pending, Maps.sum_empty]
    · rw [pending] at isPending
      simp at isPending
  · rintro done segmentId ordinal path record streams next ⟨bytes, places⟩ placed notDone indexed
    obtain ⟨-, entries⟩ := indexRecord_eq_ok indexed
    have absent : (streams.entry record.streamId).pending[record.sequence]? = none := by
      cases isPending : (streams.entry record.streamId).pending[record.sequence]? with
      | none => rfl
      | some pointer =>
        obtain ⟨isDone, other, otherPlaced, sameStream, sameSequence⟩ := places _ _ _ isPending
        obtain ⟨rfl, rfl⟩ := unique _ _ _ _ _ _ placed otherPlaced sameStream.symm sameSequence.symm
        exact absurd isDone notDone
    refine ⟨fun streamId => ?_, fun streamId sequence pointer isPending => ?_⟩
    · rw [entries]
      split
      · rename_i here
        obtain ⟨rfl, -⟩ := here
        show (streams.entry record.streamId).pendingPayloadBytes + record.payloadLen =
          Maps.sum _ ((streams.entry record.streamId).pending.insert _ _)
        rw [Maps.sum_insert, Maps.sum_of_absent absent, payloadAt_of_placed placed, bytes, Nat.add_comm]
        rfl
      · exact bytes streamId
    · rw [entries] at isPending
      split at isPending
      · rename_i here
        obtain ⟨rfl, -⟩ := here
        obtain ⟨sameSequence, rfl⟩ | ⟨-, isPending⟩ := Maps.getElem?_insert_eq_some.mp isPending
        · exact ⟨.inr ⟨rfl, rfl⟩, record, placed, rfl, sameSequence⟩
        · obtain ⟨isDone, rest⟩ := places _ _ _ isPending
          exact ⟨.inl isDone, rest⟩
      · obtain ⟨isDone, rest⟩ := places _ _ _ isPending
        exact ⟨.inl isDone, rest⟩

/-- **The rebuilt streams count the bytes of their pending records.** -/
theorem rebuildIndexes_bytes {scanned : SegmentMap} {streams : StreamMap}
    {highwaters : Highwaters} {control : Control}
    (rebuilt : rebuildIndexes scanned highwaters control = .ok (segments, streams))
    (streamId : StreamId) : (streams.entry streamId).pendingPayloadBytes =
      (streams.entry streamId).recountBytes segments := by
  obtain ⟨-, indexes⟩ := indexes_rebuildIndexes rebuilt
  obtain ⟨replay, indexed, ⟨applied, -, isReplay, isReleased⟩, isIndexed, isFinal⟩ :=
    rebuildIndexes_eq_ok.mp rebuilt
  have replayed := replayed_all isReplay
  have bytes := indexSegments_bytes (fun segmentId ordinal record otherId otherOrdinal other =>
    indexes.unique segmentId ordinal record otherId otherOrdinal other trivial trivial)
    replayed.pending replayed.unpaid isIndexed streamId
  obtain ⟨-, pending, paid⟩ := applyDurableHighwaters_entry isFinal streamId
  rw [paid, bytes, StreamState.recountBytes, StreamState.recountBytes, pending]

theorem addPendingCounts_total {streams : List StreamState}
    (folded : tryFold addPendingCount start streams = .ok total) :
    total = start + (streams.map fun stream => stream.pending.size).sum := by
  induction streams generalizing start with
  | nil =>
    cases folded
    rfl
  | cons stream rest ih =>
    rw [tryFold_cons, bind_eq_ok] at folded
    obtain ⟨next, first, later⟩ := folded
    simp only [addPendingCount, bind_eq_ok, orError_eq_ok, toWord_eq_some,
      checkedAdd_eq_some] at first
    obtain ⟨_, ⟨rfl, -⟩, rfl, -⟩ := first
    rw [ih later, List.map_cons, List.sum_cons, Nat.add_assoc]

theorem addPendingBytes_total {streams : List StreamState}
    (folded : tryFold addPendingBytes start streams = .ok total) :
    total = start + (streams.map fun stream => stream.pendingPayloadBytes).sum := by
  induction streams generalizing start with
  | nil =>
    cases folded
    rfl
  | cons stream rest ih =>
    rw [tryFold_cons, bind_eq_ok] at folded
    obtain ⟨next, first, later⟩ := folded
    simp only [addPendingBytes, orError_eq_ok, checkedAdd_eq_some] at first
    obtain ⟨rfl, -⟩ := first
    rw [ih later, List.map_cons, List.sum_cons, Nat.add_assoc]

section

variable [Hasher] {fs left : Fs} {world : World}

/-- **The counters of an opened root are exact.** -/
theorem counters_open {config : Config} {entropy : RootId} {listing : Listing} {storage : Storage}
    (returned : Returns (Storage.open config entropy listing) fs storage left) :
    storage.countView.Exact := by
  obtain ⟨checkpoint, frames, file, scanned, control, base, opens⟩ := returns_open returned
  obtain ⟨config, rootId, recovery, stats, -, assembled⟩ := opens.assembled
  obtain ⟨-, -, segments, assembles⟩ := assembleStorage_eq_ok assembled
  rw [opens.left]
  exact
    { durable := assembles.durable
      records := by
        have total := addPendingCounts_total assembles.records
        rw [Nat.zero_add, Maps.sum_values] at total
        exact total
      bytes := by
        have total := addPendingBytes_total assembles.bytes
        rw [Nat.zero_add, Maps.sum_values] at total
        exact total
      each := fun streamId => by
        show (StreamMap.entry base.streams streamId).pendingPayloadBytes =
          (StreamMap.entry base.streams streamId).recountBytes base.segments
        rw [rebuildIndexes_bytes assembles.rebuilt]
        refine Maps.sum_eq_of_entries fun sequence => ?_
        have lengths : ∀ pointer, payloadAt base.segments pointer = payloadAt segments pointer := by
          intro pointer
          have again := sameSegments_refreshSegments assembles.refreshed pointer.segmentId
          unfold payloadAt
          cases found : base.segments[pointer.segmentId]? with
          | none =>
            rw [found, Option.map_none, eq_comm, Option.map_eq_none_iff] at again
            rw [again]
          | some segment =>
            obtain ⟨original, isOriginal, rfl⟩ := refreshSegments_found assembles.refreshed found
            rw [isOriginal]
            rfl
        simp only [lengths] }

/-- **The counters of an open root are exact.** -/
theorem counters_reached (reached : Reached world) : world.storage.countView.Exact :=
  @Reached.rule _ _ (fun world => world.storage.countView.Exact) counters_open
    (fun sound balanced exact moves => counters_moves sound balanced exact moves) reached

end

end Camus
