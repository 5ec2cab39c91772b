/-
**What the operations do to streams.**

An operation changes only the streams its request names, and no high-water ever goes down.

* `Refreshes named storage next` — outside the named streams, high-waters, pending records and their
  counters are as before, and no high-water went down.
* `refreshes_appendGroup`, `refreshes_releaseGroup`, `refreshes_reclaim`, `refreshes_sealExpired` —
  the operations of the reactor.
* `runs_isolated` — a whole run.
-/

import Camus.Storage.ReleaseSet

set_option linter.unusedSectionVars false

namespace Camus

open Codec Checked Disk FaultIo Std

variable {creation : Clock} {ids : List (List RecordId)}

/-- **Only the named streams are changed**, and no high-water goes down. -/
structure Refreshes (named : StreamId → Prop) (storage next : Storage) : Prop where
  others : ∀ streamId, ¬ named streamId →
    (next.stream streamId).logical = (storage.stream streamId).logical
  grows : ∀ streamId highwater, storage.streamHighwater streamId = some highwater →
    ∃ later, next.streamHighwater streamId = some later ∧ highwater ≤ later

namespace Refreshes

variable {named more : StreamId → Prop} {storage middle next : Storage}

theorem trans (first : Refreshes named storage middle) (second : Refreshes named middle next) :
    Refreshes named storage next where
  others streamId notNamed := (second.others streamId notNamed).trans (first.others streamId notNamed)
  grows streamId highwater isHighwater := by
    obtain ⟨later, isLater, before⟩ := first.grows streamId highwater isHighwater
    obtain ⟨last, isLast, after⟩ := second.grows streamId later isLater
    exact ⟨last, isLast, before.trans after⟩

theorem mono (refreshes : Refreshes named storage next)
    (implies : ∀ streamId, named streamId → more streamId) : Refreshes more storage next where
  others streamId notNamed := refreshes.others streamId fun isNamed =>
    notNamed (implies streamId isNamed)
  grows := refreshes.grows

/-- Streams that agree but for what the manifest has persisted of them. -/
theorem of_same (same : SameStreams storage.streams next.streams) : Refreshes named storage next := by
  have logical : ∀ streamId, (next.stream streamId).logical = (storage.stream streamId).logical := by
    intro streamId
    have agrees := same streamId
    show (next.streams[streamId]?.getD .default).logical =
      (storage.streams[streamId]?.getD .default).logical
    cases found : next.streams[streamId]? <;> cases before : storage.streams[streamId]? <;>
      simp_all
  refine ⟨fun streamId _ => logical streamId, fun streamId highwater isHighwater => ?_⟩
  have agrees : next.streamHighwater streamId = storage.streamHighwater streamId := by
    show (next.stream streamId).logical.highwater = (storage.stream streamId).logical.highwater
    rw [logical]
  exact ⟨highwater, agrees.trans isHighwater, Nat.le_refl _⟩

theorem of_streams (same : next.streams = storage.streams) : Refreshes named storage next :=
  of_same fun streamId => by rw [same]

/-- One named stream is replaced, and its high-water does not go down. -/
theorem insert {streamId : StreamId} {state : StreamState}
    (streams : next.streams = storage.streams.insert streamId state) (isNamed : named streamId)
    (grows : ∀ highwater, storage.streamHighwater streamId = some highwater →
      ∃ later, state.highwater = some later ∧ highwater ≤ later) : Refreshes named storage next := by
  have entry : ∀ other, next.stream other = if streamId = other then state else storage.stream other := by
    intro other
    show next.streams[other]?.getD .default = _
    rw [streams, ExtTreeMap.getElem?_insert]
    simp only [LawfulEqCmp.compare_eq_iff_eq]
    split <;> rfl
  refine ⟨fun other notNamed => ?_, fun other highwater isHighwater => ?_⟩
  · have different : streamId ≠ other := by
      rintro rfl
      exact notNamed isNamed
    rw [entry, if_neg different]
  · show ∃ later, (next.stream other).highwater = some later ∧ highwater ≤ later
    rw [entry]
    split
    · rename_i same
      subst same
      exact grows highwater isHighwater
    · exact ⟨highwater, isHighwater, Nat.le_refl _⟩

end Refreshes

section

variable [Hasher] {world middle final : World} {named : StreamId → Prop}

theorem refreshes_seals (seals : Seals world final) :
    Refreshes named world.storage final.storage :=
  .of_streams seals.kept.2.1

theorem refreshes_compacts (compacts : Returns compactManifest world () final ∨ final = world) :
    Refreshes named world.storage final.storage := by
  rcases compacts with returned | rfl
  · exact .of_same (compacted_compactManifest returned).2.1
  · exact .of_streams rfl

/-- Indexing new records changes their streams. -/
theorem refreshes_indexDurableRecords {storage next : Storage} {segmentId start : Nat}
    {segment : Segment} (indexed : storage.indexDurableRecords segmentId start = .ok next)
    (found : storage.segments[segmentId]? = some segment)
    (roomy : Roomy (segment.records.drop start) storage.streams)
    (names : ∀ record ∈ segment.records.drop start, named record.streamId) :
    Refreshes named storage next := by
  simp only [Storage.indexDurableRecords, Result.bind_eq_ok, Storage.segmentAt,
    Result.orError_eq_ok] at indexed
  obtain ⟨_, isSegment, folded⟩ := indexed
  cases found.symm.trans isSegment
  refine (Result.tryFold_induction (fun total : Storage => Refreshes named storage total ∧
    Roomy (segment.records.drop start) total.streams) ⟨.of_streams rfl, roomy⟩ ?_ folded).1
  rintro total ⟨record, ordinal⟩ following member ⟨before, room⟩ stepped
  obtain ⟨continues, bounded, state, isHighwater, -, streams, -⟩ := indexDurableRecord_eq_ok stepped
  have listed : record ∈ segment.records.drop start := by
    have listed := List.mem_map_of_mem (f := Prod.fst) member
    rwa [List.map_drop, List.zipIdx_map_fst] at listed
  refine ⟨before.trans (.insert streams (names record listed) fun highwater isBefore => ?_), ?_⟩
  · refine ⟨record.sequence, isHighwater, ?_⟩
    obtain ⟨-, isNext⟩ := continues highwater isBefore
    have small : highwater ≤ wordMax := room record listed highwater isBefore
    rw [isNext, saturatingAdd]
    omega
  · intro other isOther highwater isAfter
    rw [streams, StreamMap.entry, ExtTreeMap.getElem?_insert] at isAfter
    split at isAfter
    · have same : record.sequence = highwater := Option.some.inj (isHighwater.symm.trans isAfter)
      omega
    · exact room other isOther highwater isAfter

/-- A group changes the streams of its epochs. -/
theorem refreshes_writeGroup {epochs : List Epoch} (sound : world.storage.indexView.Sound)
    (valid : ∀ epoch ∈ epochs, epoch.Valid) (room : ∀ epoch ∈ epochs, ∀ highwater,
      world.storage.streamHighwater epoch.streamId = some highwater → highwater < wordMax)
    (names : ∀ epoch ∈ epochs, named epoch.streamId)
    (returned : Returns (writeGroup (epochs.map Epoch.prepared) creation) world ids final) :
    Refreshes named world.storage final.storage := by
  have ofEpochs : ∀ {start : Nat} {record : StoredRecord}, record ∈ storedEpochs start epochs →
      named record.streamId := by
    intro start record member
    obtain ⟨epoch, isEpoch, sameStream, -⟩ := SegmentImage.mem_storedEpochs member
    rw [sameStream]
    exact names epoch isEpoch
  rcases returns_writeGroup returned with ⟨active, segment, appended, indexed, -, extended⟩ |
    ⟨segment, indexed, -, created⟩
  · obtain ⟨-, shape, -⟩ := returns_segmentAppend valid extended.appends
    have indexable := extended.indexable sound valid room
    have records : appended.records.drop segment.records.length =
        storedEpochs segment.fileLen epochs := by
      rw [shape]
      exact List.drop_left
    have indexes : Refreshes named _ indexed := refreshes_indexDurableRecords extended.indexes
      indexable.found indexable.roomy (by
        rw [records]
        exact fun record member => ofEpochs member)
    rw [extended.left]
    exact ⟨indexes.others, indexes.grows⟩
  · obtain ⟨createdAt, creates⟩ := created.creates
    obtain ⟨⟨-, -, records, -⟩, -⟩ := returns_segmentCreate valid creates
    have indexable := created.indexable sound valid room
    have indexes : Refreshes named _ indexed := refreshes_indexDurableRecords created.indexes
      indexable.found indexable.roomy (by
        rw [List.drop_zero, records]
        exact fun record member => ofEpochs member)
    rw [created.left]
    exact ⟨indexes.others, indexes.grows⟩

/-- **An append changes the streams of its units.** -/
theorem refreshes_appendGroup {units : List AppendUnit} {expiry : Clock}
    (sound : world.storage.indexView.Sound) (names : ∀ unit ∈ units, named unit.streamId)
    (returned : Returns (appendGroup units expiry creation) world ids final) :
    Refreshes named world.storage final.storage := by
  rcases returns_appendGroup returned with ⟨-, -, rfl⟩ |
    ⟨prepared, rolled, written, commits, isPrepared, rolls, writes, rfl⟩
  · exact .of_streams rfl
  · obtain ⟨epochs, rfl, valid, rfl, room⟩ := prepareUnits_eq_ok isPrepared
    have stillRoom : ∀ epoch ∈ epochs, ∀ highwater,
        rolled.storage.streamHighwater epoch.streamId = some highwater → highwater < wordMax := by
      intro epoch member highwater isHighwater
      refine room epoch member highwater ?_
      rwa [Storage.streamHighwater, Storage.stream, rolls.streams] at isHighwater
    have wrote : Refreshes named rolled.storage written.storage :=
      refreshes_writeGroup (sound_seals sound rolls) valid stillRoom
        (fun epoch member => names epoch.unit (List.mem_map_of_mem member)) writes
    exact (refreshes_seals rolls).trans ⟨wrote.others, wrote.grows⟩

/-- **A release changes the streams of its units.** -/
theorem refreshes_releaseGroup {units : List ReleaseUnit} {value : Unit}
    (names : ∀ unit ∈ units, named unit.streamId)
    (returned : Returns (releaseGroup units) world value final) :
    Refreshes named world.storage final.storage := by
  obtain ⟨plan, planned, ⟨-, rfl⟩ |
    ⟨-, manifest, fs, bytes, commits, marked, -, -, folded, compacts⟩⟩ := returns_releaseGroup returned
  · exact .of_streams rfl
  · have marks : Refreshes named world.storage marked := by
      have announced : Refreshes named world.storage { world.storage with
          manifest := manifest, actualFileBytes := bytes, commits := commits } := .of_streams rfl
      refine Result.tryFold_induction (Refreshes named world.storage) announced ?_ folded
      intro total identity next member before stepped
      have isNamed : named identity.1 := by
        obtain ⟨listed, -⟩ := (mem_identities planned identity).mp member
        obtain ⟨unit, isUnit, inUnit⟩ := List.mem_flatMap.mp listed
        obtain ⟨_, -, rfl⟩ := List.mem_map.mp inUnit
        exact names unit isUnit
      rcases markRecordReleased_eq_ok.mp stepped with ⟨-, rfl⟩ | ⟨state, place, segment, record, marked⟩
      · exact before
      · refine before.trans (.insert (by rw [marked.left]) isNamed fun highwater isHighwater => ?_)
        refine ⟨highwater, ?_, Nat.le_refl _⟩
        rw [← isHighwater]
        show state.highwater = (StreamMap.entry total.streams identity.1).highwater
        rw [marked.entry]
    exact marks.trans (refreshes_compacts compacts)

/-- **A reclamation changes no stream.** -/
theorem refreshes_reclaim {kind : ReclaimKind} {report : ReclaimReport}
    (reached : Reached world) (returned : Returns (reclaim kind) world report final) :
    Refreshes named world.storage final.storage := by
  obtain ⟨gone, reclaimed⟩ := reclamation reached returned
  exact .of_same reclaimed.streams

theorem refreshes_sealExpired {clock : Clock} {value : Bool}
    (returned : Returns (sealExpired clock) world value final) :
    Refreshes named world.storage final.storage := by
  rcases returns_sealExpired returned with rfl | ⟨middle, seals, compacts⟩
  · exact .of_streams rfl
  · exact (refreshes_seals seals).trans (refreshes_compacts compacts)

/-! ### Whole runs -/

/-- The streams a request names. -/
def Operation.names : Operation → StreamId → Prop
  | append units _ _, streamId => ∃ unit ∈ units, unit.streamId = streamId
  | release units, streamId => ∃ unit ∈ units, unit.streamId = streamId
  | _, _ => False

theorem refreshes_operation {operation : Operation} (reached : Reached world)
    (returned : operation.Returns world final) :
    Refreshes operation.names world.storage final.storage := by
  cases operation with
  | append units expiry creation =>
    obtain ⟨ids, returned⟩ := returned
    exact refreshes_appendGroup (sound_reached reached) (fun unit member => ⟨unit, member, rfl⟩) returned
  | release units => exact refreshes_releaseGroup (fun unit member => ⟨unit, member, rfl⟩) returned
  | reclaim kind =>
    obtain ⟨report, returned⟩ := returned
    exact refreshes_reclaim reached returned
  | sealExpired clock =>
    obtain ⟨sealed, returned⟩ := returned
    exact refreshes_sealExpired returned
  | compact => exact refreshes_compacts (.inl returned)

/-- **Streams are isolated.** Over any run, the pending records, counters and high-waters of a stream
that no request names are as before, and no high-water goes down. -/
theorem runs_isolated {operations : List Operation} (reached : Reached world)
    (runs : Runs world operations final) :
    Refreshes (fun streamId => ∃ operation ∈ operations, operation.names streamId) world.storage
      final.storage := by
  induction runs with
  | done => exact .of_streams rfl
  | operated returned _ ih =>
    refine ((refreshes_operation reached returned).mono ?_).trans
      ((ih (.operated reached returned)).mono ?_)
    · exact fun _ isNamed => ⟨_, List.mem_cons_self, isNamed⟩
    · rintro _ ⟨other, member, isNamed⟩
      exact ⟨other, List.mem_cons_of_mem _ member, isNamed⟩

end

/-- A run over stream 1 of a root that also has stream 2. -/
theorem runs_isolated_sample : ∃ before after : World,
    after.storage.streamHighwater 1 = some 1 ∧ after.storage.streamHighwater 2 = some 0 ∧
      Refreshes (· = 1) before.storage after.storage := by
  have evaluated : (Sample.extend .sample [Sample.append [Sample.unit 1], Sample.append [Sample.unit 2]]
      [Sample.append [Sample.unit 1], Sample.release 1 0, .reclaim .automatic]).any
        (fun (_, after) => decide (after.storage.streamHighwater 1 = some 1 ∧
          after.storage.streamHighwater 2 = some 0)) = true := by
    decide +kernel
  obtain ⟨⟨before, after⟩, found, highwaters⟩ := exists_of_any evaluated
  obtain ⟨first, second⟩ := of_decide_eq_true highwaters
  obtain ⟨reached, runs⟩ := Sample.runs_of_extend found
  refine ⟨before, after, first, second, (@runs_isolated Hasher.fnv _ _ _ reached runs).mono ?_⟩
  simp [Operation.names, Sample.append, Sample.unit, Sample.release]

end Camus
