/-
**The published view of a root.**

Clients read statistics, known streams and high-waters from a view, which the reactor publishes after
every storage job. It refreshes only the streams of the command.

* `viewFromStorage` — the whole view; `Shows` — its parts.
* `publishStorage` — the refresh of some streams, with the test whether something changed.
* `Publishing` — the reactor's loop as far as the view sees it: a job, the refresh, the notification.
* `publication_exact` — after every publication the view is the whole view of the storage; a change
  wakes those who wait; a release that the view admits is not refused later.
-/

import Camus.Api.Reactor
import Camus.Storage.StreamFrame

set_option linter.unusedSectionVars false

namespace Camus

open Codec Checked Disk FaultIo Result Std

variable {clocks : JobClocks} {units : List AppendUnit} {streamId : StreamId}
  {named : StreamId → Prop}

/-! ### Statistics -/

/-- What a client is told of a stream. -/
structure StreamStats where
  durableKnown : Bool
  pendingRecords : Nat
  pendingPayloadBytes : Nat
deriving DecidableEq

/-- What a client is told of the storage. -/
structure StorageStats where
  configuredCapacityBytes : Option Nat
  fullPolicy : Option FullPolicy
  durableStreams : Nat
  pendingRecords : Nat
  pendingPayloadBytes : Nat
  actualFileBytes : Nat
  maintenanceHeadroomBytes : Nat
  dataAdmissibleBytes : Option Nat
  liveSegments : Nat
  sealedSegments : Nat
  reclaimableSegments : Nat
  reclaimableBytes : Nat
deriving DecidableEq

/-- A stream in the view. -/
structure PublishedStream where
  stats : StreamStats
  highwater : Nat
deriving DecidableEq

/-- **What the reactor publishes.** -/
structure View where
  storage : StorageStats
  commits : CommitStats
  maintenance : MaintenanceStats
  recovery : RecoveryStats
  knownStreams : List StreamId
  streams : ExtTreeMap StreamId PublishedStream

def StreamState.stats (stream : StreamState) : StreamStats where
  durableKnown := stream.highwater.isSome
  pendingRecords := saturatingWord stream.pending.size
  pendingPayloadBytes := stream.pendingPayloadBytes

namespace Storage

def streamStats (storage : Storage) (streamId : StreamId) : StreamStats :=
  (storage.streams[streamId]?.map StreamState.stats).getD ⟨false, 0, 0⟩

/-- The streams with a high-water, in their order. -/
def knownStreams (storage : Storage) : List StreamId :=
  storage.streams.toList.filterMap fun (streamId, state) => state.highwater.map fun _ => streamId

def storageStats (storage : Storage) : Except Error StorageStats := do
  let headroom ← storage.maintenanceHeadroomBytes
  let liveSegments ← orError (.invalidConfig "segment count does not fit u64")
    (toWord storage.segments.size)
  return {
    configuredCapacityBytes := match storage.config.capacity with
      | .unbounded => none
      | .bounded totalBytes _ => some totalBytes
    fullPolicy := match storage.config.capacity with
      | .unbounded => none
      | .bounded _ whenFull => some whenFull
    durableStreams := storage.durableStreams
    pendingRecords := storage.pendingRecords
    pendingPayloadBytes := storage.pendingPayloadBytes
    actualFileBytes := storage.actualFileBytes
    maintenanceHeadroomBytes := headroom
    dataAdmissibleBytes := match storage.config.capacity with
      | .unbounded => none
      | .bounded totalBytes _ =>
        some (totalBytes - saturatingAdd storage.actualFileBytes headroom)
    liveSegments := liveSegments
    sealedSegments := liveSegments - storage.activeSegment.isSome.toNat
    reclaimableSegments := storage.reclaimableSegments
    reclaimableBytes := storage.reclaimableBytes }

/-- A known stream as the view shows it. -/
def publishedStream (storage : Storage) (streamId : StreamId) : Option PublishedStream :=
  (storage.streamHighwater streamId).map fun highwater => ⟨storage.streamStats streamId, highwater⟩

end Storage

/-- **The whole view of a root.** -/
def viewFromStorage (storage : Storage) : Except Error View := do
  let streams ← tryMap
    (fun streamId => do
      let published ← orError (.panicked "known stream has a highwater")
        (storage.publishedStream streamId)
      return (streamId, published))
    storage.knownStreams
  let stats ← storage.storageStats
  return {
    storage := stats
    commits := storage.commits
    maintenance := storage.maintenance
    recovery := storage.recovery
    knownStreams := storage.knownStreams
    streams := streams.foldl (fun map entry => map.insert entry.1 entry.2) ∅ }

/-- **A view shows a root**: its statistics, its known streams in their order, and each of them with
its statistics and its high-water. -/
structure Shows (storage : Storage) (view : View) : Prop where
  stats : storage.storageStats = .ok view.storage
  commits : view.commits = storage.commits
  maintenance : view.maintenance = storage.maintenance
  recovery : view.recovery = storage.recovery
  sorted : view.knownStreams.Pairwise (· < ·)
  known : ∀ streamId, streamId ∈ view.knownStreams ↔
    (storage.streamHighwater streamId).isSome = true
  streams : ∀ streamId, view.streams[streamId]? = storage.publishedStream streamId

section Whole

variable {storage : Storage} {view : View}

theorem streamStats_eq (storage : Storage) (streamId : StreamId) :
    storage.streamStats streamId = (storage.stream streamId).stats := by
  show _ = (storage.streams[streamId]?.getD .default).stats
  unfold Storage.streamStats
  cases storage.streams[streamId]? <;> rfl

theorem knownStreams_sorted (storage : Storage) : storage.knownStreams.Pairwise (· < ·) := by
  unfold Storage.knownStreams
  refine List.Pairwise.filterMap _ ?_ ExtTreeMap.ordered_keys_toList
  rintro ⟨first, left⟩ ⟨second, right⟩ ordered found isFound other isOther
  obtain ⟨_, -, rfl⟩ := Option.map_eq_some_iff.mp isFound
  obtain ⟨_, -, rfl⟩ := Option.map_eq_some_iff.mp isOther
  exact compare_lt_iff_lt.mp ordered

theorem mem_knownStreams (storage : Storage) (streamId : StreamId) :
    streamId ∈ storage.knownStreams ↔ (storage.streamHighwater streamId).isSome = true := by
  show _ ↔ (storage.streams[streamId]?.getD .default).highwater.isSome = true
  rw [Storage.knownStreams, List.mem_filterMap]
  constructor
  · rintro ⟨⟨other, state⟩, member, found⟩
    obtain ⟨highwater, isHighwater, rfl⟩ := Option.map_eq_some_iff.mp found
    rw [ExtTreeMap.mem_toList_iff_getElem?_eq_some.mp member]
    simp only [Option.getD_some, isHighwater, Option.isSome_some]
  · intro isKnown
    cases found : storage.streams[streamId]? with
    | none =>
      rw [found] at isKnown
      cases isKnown
    | some state =>
      rw [found] at isKnown
      obtain ⟨highwater, isHighwater⟩ := Option.isSome_iff_exists.mp isKnown
      refine ⟨(streamId, state), ExtTreeMap.mem_toList_iff_getElem?_eq_some.mpr found, ?_⟩
      have known : state.highwater = some highwater := isHighwater
      simp only [known, Option.map_some]

/-- The streams of the whole view. -/
def Storage.publishedStreams (storage : Storage) : ExtTreeMap StreamId PublishedStream :=
  (storage.knownStreams.map fun streamId => (streamId,
    (⟨storage.streamStats streamId, (storage.streamHighwater streamId).getD 0⟩ : PublishedStream))).foldl
      (fun map entry => map.insert entry.1 entry.2) ∅

theorem getElem?_publishedStreams (storage : Storage) (streamId : StreamId) :
    storage.publishedStreams[streamId]? = storage.publishedStream streamId := by
  refine Option.ext fun published => ?_
  unfold Storage.publishedStreams
  rw [Maps.getElem?_foldl_insert, List.mem_map, Storage.publishedStream, Option.map_eq_some_iff]
  · constructor
    · rintro ⟨other, member, same⟩
      obtain ⟨rfl, rfl⟩ := Prod.mk.inj same
      obtain ⟨highwater, isHighwater⟩ :=
        Option.isSome_iff_exists.mp ((mem_knownStreams storage other).mp member)
      exact ⟨highwater, isHighwater, by rw [isHighwater, Option.getD_some]⟩
    · rintro ⟨highwater, isHighwater, rfl⟩
      refine ⟨streamId, (mem_knownStreams storage streamId).mpr (by rw [isHighwater]; rfl), ?_⟩
      rw [isHighwater, Option.getD_some]
  · rw [List.pairwise_map]
    exact (knownStreams_sorted storage).imp fun ordered => ordered.ne

theorem viewFromStorage_eq (storage : Storage) : viewFromStorage storage = do
    let stats ← storage.storageStats
    return ⟨stats, storage.commits, storage.maintenance, storage.recovery, storage.knownStreams,
      storage.publishedStreams⟩ := by
  unfold viewFromStorage
  rw [tryMap_eq_map (fun streamId => (streamId,
    (⟨storage.streamStats streamId, (storage.streamHighwater streamId).getD 0⟩ : PublishedStream)))]
  · rfl
  · intro streamId member
    obtain ⟨highwater, isHighwater⟩ :=
      Option.isSome_iff_exists.mp ((mem_knownStreams storage streamId).mp member)
    rw [Storage.publishedStream, isHighwater]
    rfl

/-- **The whole view is the one that shows the root.** -/
theorem viewFromStorage_iff : viewFromStorage storage = .ok view ↔ Shows storage view := by
  rw [viewFromStorage_eq]
  simp only [bind_eq_ok, pure_eq_ok]
  constructor
  · rintro ⟨stats, isStats, rfl⟩
    exact ⟨isStats, rfl, rfl, rfl, knownStreams_sorted storage, mem_knownStreams storage,
      getElem?_publishedStreams storage⟩
  · intro shows
    refine ⟨view.storage, shows.stats, ?_⟩
    have known : storage.knownStreams = view.knownStreams :=
      (knownStreams_sorted storage).eq_of_mem_iff shows.sorted fun streamId =>
        (mem_knownStreams storage streamId).trans (shows.known streamId).symm
    have streams : storage.publishedStreams = view.streams :=
      ExtTreeMap.ext_getElem? fun streamId =>
        (getElem?_publishedStreams storage streamId).trans (shows.streams streamId).symm
    rw [known, streams, ← shows.commits, ← shows.maintenance, ← shows.recovery]

end Whole

/-! ### The refresh -/

/-- Refreshes one stream of the view and notes whether something changed. The known streams are kept in
their order; where the binary search does not find the stream, it is inserted. -/
def refreshStream (storage : Storage) (current : View × Bool) (streamId : StreamId) : View × Bool :=
  let stats := storage.streamStats streamId
  match storage.streamHighwater streamId with
  | some highwater =>
    let published : PublishedStream := ⟨stats, highwater⟩
    let refreshed := { current.1 with streams := current.1.streams.insert streamId published }
    if streamId ∈ current.1.knownStreams then
      (refreshed, current.2 || current.1.streams[streamId]? ≠ some published)
    else
      ({ refreshed with
        knownStreams := current.1.knownStreams.orderedInsert (· < ·) streamId }, true)
  | none =>
    match current.1.streams[streamId]? with
    | some published =>
      ({ current.1 with
        streams := current.1.streams.insert streamId { published with stats := stats } },
        current.2 || published.stats ≠ stats)
    | none => current

/-- The counters of a storage in a view. -/
def View.count (storage : Storage) (view : View) : View :=
  { view with
    commits := storage.commits
    maintenance := storage.maintenance
    recovery := storage.recovery }

/-- Refreshes the view: the statistics of the storage and some streams. -/
def publishStorage (storage : Storage) (streams : List StreamId) (view : View) :
    Except Error (View × Bool) := do
  let stats ← storage.storageStats
  return streams.foldl (refreshStream storage)
    ({ view.count storage with storage := stats }, decide (view.storage ≠ stats))

section Refresh

variable {storage : Storage} {view : View}

theorem orderedInsert_sorted {known : List StreamId} (sorted : known.Pairwise (· < ·))
    (new : streamId ∉ known) : (known.orderedInsert (· < ·) streamId).Pairwise (· < ·) := by
  induction known with
  | nil => exact List.pairwise_singleton _ _
  | cons first rest ih =>
    obtain ⟨before, sortedRest⟩ := List.pairwise_cons.mp sorted
    rw [List.orderedInsert]
    split
    · rename_i smaller
      refine List.pairwise_cons.mpr ⟨fun other member => ?_, sorted⟩
      rcases List.mem_cons.mp member with rfl | later
      · exact smaller
      · exact smaller.trans (before other later)
    · rename_i notSmaller
      have different : streamId ≠ first := fun same => new (by rw [same]; exact List.mem_cons_self)
      have greater : first < streamId := (lt_or_gt_of_ne different).resolve_left notSmaller
      refine List.pairwise_cons.mpr ⟨fun other member => ?_,
        ih sortedRest fun later => new (List.mem_cons_of_mem _ later)⟩
      rcases (List.mem_orderedInsert (· < ·)).mp member with rfl | later
      · exact greater
      · exact before other later

/-- What the refresh of some streams leaves of a view. -/
structure Refreshed (storage : Storage) (streams : List StreamId) (before after : View × Bool) :
    Prop where
  stats : after.1.storage = before.1.storage
  commits : after.1.commits = before.1.commits
  maintenance : after.1.maintenance = before.1.maintenance
  recovery : after.1.recovery = before.1.recovery
  sorted : before.1.knownStreams.Pairwise (· < ·) → after.1.knownStreams.Pairwise (· < ·)
  known : ∀ streamId, streamId ∈ after.1.knownStreams ↔ streamId ∈ before.1.knownStreams ∨
    (streamId ∈ streams ∧ (storage.streamHighwater streamId).isSome = true)
  streams : ∀ streamId, after.1.streams[streamId]? =
    if streamId ∈ streams then storage.publishedStream streamId else before.1.streams[streamId]?
  unchanged : after.2 = false → before.2 = false ∧
    ∀ streamId : StreamId, after.1.streams[streamId]? = before.1.streams[streamId]?

/-- Streams without a high-water are not in the view. -/
def View.Within (storage : Storage) (view : View) : Prop :=
  ∀ streamId : StreamId, storage.streamHighwater streamId = none → view.streams[streamId]? = none

theorem refreshed_refreshStream {current : View × Bool} (within : current.1.Within storage)
    (streamId : StreamId) :
    Refreshed storage [streamId] current (refreshStream storage current streamId) ∧
      (refreshStream storage current streamId).1.Within storage := by
  unfold refreshStream
  cases isHighwater : storage.streamHighwater streamId with
  | none =>
    have missing := within streamId isHighwater
    have same : ∀ other : StreamId, current.1.streams[other]? =
        if other ∈ [streamId] then storage.publishedStream other else current.1.streams[other]? := by
      intro other
      by_cases isStream : other = streamId
      · subst isStream
        simp [missing, Storage.publishedStream, isHighwater]
      · simp [isStream]
    simp only [missing]
    refine ⟨⟨rfl, rfl, rfl, rfl, id, fun other => ?_, same, fun unchanged => ⟨unchanged, fun _ => rfl⟩⟩,
      within⟩
    constructor
    · exact .inl
    · rintro (known | ⟨isStream, isKnown⟩)
      · exact known
      · rw [List.mem_singleton.mp isStream, isHighwater] at isKnown
        cases isKnown
  | some highwater =>
    have published : storage.publishedStream streamId =
        some ⟨storage.streamStats streamId, highwater⟩ := by
      rw [Storage.publishedStream, isHighwater, Option.map_some]
    have inserted : ∀ other : StreamId, (current.1.streams.insert streamId
        ⟨storage.streamStats streamId, highwater⟩)[other]? =
        if other ∈ [streamId] then storage.publishedStream other else current.1.streams[other]? := by
      intro other
      rw [ExtTreeMap.getElem?_insert]
      simp only [LawfulEqCmp.compare_eq_iff_eq, List.mem_singleton]
      by_cases isStream : other = streamId
      · subst isStream
        rw [if_pos rfl, if_pos rfl, published]
      · rw [if_neg (Ne.symm isStream), if_neg isStream]
    have stillWithin : ∀ other : StreamId, storage.streamHighwater other = none →
        (current.1.streams.insert streamId
          ⟨storage.streamStats streamId, highwater⟩)[other]? = none := by
      intro other unknown
      have different : other ≠ streamId := by
        rintro rfl
        rw [isHighwater] at unknown
        cases unknown
      rw [inserted, if_neg (by simpa using different)]
      exact within other unknown
    simp only
    split
    · rename_i isKnown
      refine ⟨⟨rfl, rfl, rfl, rfl, id, fun other => ?_, inserted, fun unchanged => ?_⟩, stillWithin⟩
      · constructor
        · exact .inl
        · rintro (known | ⟨isStream, -⟩)
          · exact known
          · rw [List.mem_singleton.mp isStream]
            exact isKnown
      · simp only [Bool.or_eq_false_iff, decide_eq_false_iff_not, not_not] at unchanged
        refine ⟨unchanged.1, fun other => ?_⟩
        rw [inserted]
        split
        · rename_i isStream
          rw [List.mem_singleton.mp isStream, published, unchanged.2]
        · rfl
    · rename_i isNew
      refine ⟨⟨rfl, rfl, rfl, rfl, fun sorted => orderedInsert_sorted sorted isNew, fun other => ?_,
        inserted, fun unchanged => by cases unchanged⟩, stillWithin⟩
      show other ∈ current.1.knownStreams.orderedInsert (· < ·) streamId ↔ _
      rw [List.mem_orderedInsert, List.mem_singleton]
      constructor
      · rintro (rfl | known)
        · exact .inr ⟨rfl, by rw [isHighwater]; rfl⟩
        · exact .inl known
      · rintro (known | ⟨rfl, -⟩)
        · exact .inr known
        · exact .inl rfl

theorem Refreshed.cons {rest : List StreamId} {before middle after : View × Bool}
    (first : Refreshed storage [streamId] before middle)
    (later : Refreshed storage rest middle after) :
    Refreshed storage (streamId :: rest) before after where
  stats := later.stats.trans first.stats
  commits := later.commits.trans first.commits
  maintenance := later.maintenance.trans first.maintenance
  recovery := later.recovery.trans first.recovery
  sorted := later.sorted ∘ first.sorted
  known other := by
    rw [later.known, first.known, List.mem_singleton, List.mem_cons, or_and_right, or_assoc]
  streams other := by
    rw [later.streams, first.streams]
    simp only [List.mem_cons]
    by_cases isFirst : other = streamId <;> by_cases isLater : other ∈ rest <;> simp [isFirst, isLater]
  unchanged isUnchanged := by
    obtain ⟨still, same⟩ := later.unchanged isUnchanged
    obtain ⟨start, earlier⟩ := first.unchanged still
    exact ⟨start, fun other => (same other).trans (earlier other)⟩

/-- The streams are refreshed one after the other. -/
theorem refreshed_foldl {streams : List StreamId} {current : View × Bool}
    (within : current.1.Within storage) :
    Refreshed storage streams current (streams.foldl (refreshStream storage) current) := by
  induction streams generalizing current with
  | nil =>
    refine ⟨rfl, rfl, rfl, rfl, id, fun other => ?_, fun other => ?_, fun same => ⟨same, fun _ => rfl⟩⟩
    · simp
    · simp
  | cons streamId rest ih =>
    obtain ⟨first, stillWithin⟩ := refreshed_refreshStream within streamId
    exact first.cons (ih stillWithin)

/-- The view shows a root at most as far as another one is. -/
def View.Below (storage : Storage) (view : View) : Prop :=
  ∀ (streamId : StreamId) (published : PublishedStream), view.streams[streamId]? = some published →
    ∃ highwater, storage.streamHighwater streamId = some highwater ∧ published.highwater ≤ highwater

theorem View.Below.within (below : view.Below storage) : view.Within storage := by
  intro streamId unknown
  cases found : view.streams[streamId]? with
  | none => rfl
  | some published =>
    obtain ⟨highwater, isHighwater, -⟩ := below streamId published found
    rw [unknown] at isHighwater
    cases isHighwater

theorem View.Below.refreshed {streams : List StreamId} {before after : View × Bool}
    (below : before.1.Below storage) (refreshed : Refreshed storage streams before after) :
    after.1.Below storage := by
  intro streamId published found
  rw [refreshed.streams] at found
  split at found
  · obtain ⟨highwater, isHighwater, rfl⟩ := Option.map_eq_some_iff.mp found
    exact ⟨highwater, isHighwater, Nat.le_refl _⟩
  · exact below streamId published found

theorem View.Below.grows {next : Storage} (below : view.Below storage)
    (refreshes : Refreshes named storage next) : view.Below next := by
  intro streamId published found
  obtain ⟨highwater, isHighwater, bounded⟩ := below streamId published found
  obtain ⟨later, isLater, grown⟩ := refreshes.grows streamId highwater isHighwater
  exact ⟨later, isLater, bounded.trans grown⟩

theorem Shows.below (shows : Shows storage view) : view.Below storage := by
  intro streamId published found
  rw [shows.streams] at found
  obtain ⟨highwater, isHighwater, rfl⟩ := Option.map_eq_some_iff.mp found
  exact ⟨highwater, isHighwater, Nat.le_refl _⟩

theorem publishStorage_eq_ok {streams : List StreamId} {after : View × Bool}
    (below : view.Below storage) (isRefreshed : publishStorage storage streams view = .ok after) :
    ∃ stats, storage.storageStats = .ok stats ∧
      Refreshed storage streams ({ view.count storage with storage := stats },
        decide (view.storage ≠ stats)) after := by
  simp only [publishStorage, bind_eq_ok, pure_eq_ok] at isRefreshed
  obtain ⟨stats, isStats, rfl⟩ := isRefreshed
  have within : ({ view.count storage with storage := stats } : View).Within storage := below.within
  exact ⟨stats, isStats, refreshed_foldl within⟩

section Named

variable {before : Storage} {streams : List StreamId} {after : View × Bool}

/-- Outside the named streams the view has nothing to change. -/
theorem Refreshes.published (refreshes : Refreshes named before storage) (other : ¬ named streamId)
    :
    storage.streamStats streamId = before.streamStats streamId ∧
      storage.streamHighwater streamId = before.streamHighwater streamId := by
  have logical := refreshes.others streamId other
  rw [streamStats_eq, streamStats_eq]
  constructor
  · show (storage.stream streamId).logical.stats = (before.stream streamId).logical.stats
    rw [logical]
  · show (storage.stream streamId).logical.highwater = (before.stream streamId).logical.highwater
    rw [logical]

/-- **The refresh of the named streams gives the whole view.** -/
theorem shows_publishStorage (shows : Shows before view)
    (refreshes : Refreshes (· ∈ streams) before storage)
    (isRefreshed : publishStorage storage streams view = .ok after) : Shows storage after.1 := by
  obtain ⟨stats, isStats, refreshed⟩ :=
    publishStorage_eq_ok (shows.below.grows refreshes) isRefreshed
  refine ⟨by rw [refreshed.stats]; exact isStats, refreshed.commits, refreshed.maintenance,
    refreshed.recovery, refreshed.sorted shows.sorted, fun streamId => ?_, fun streamId => ?_⟩
  · rw [refreshed.known]
    show streamId ∈ view.knownStreams ∨ _ ↔ _
    rw [shows.known]
    by_cases isNamed : streamId ∈ streams
    · constructor
      · rintro (known | ⟨-, known⟩)
        · obtain ⟨highwater, isHighwater⟩ := Option.isSome_iff_exists.mp known
          obtain ⟨later, isLater, -⟩ := refreshes.grows streamId highwater isHighwater
          rw [isLater]
          rfl
        · exact known
      · exact fun known => .inr ⟨isNamed, known⟩
    · rw [(refreshes.published isNamed).2]
      simp [isNamed]
  · rw [refreshed.streams]
    split
    · rfl
    · rename_i other
      obtain ⟨sameStats, sameHighwater⟩ := refreshes.published other
      rw [Storage.publishedStream, sameStats, sameHighwater]
      exact shows.streams streamId

/-- What a waiting client waits for has changed: the statistics of the storage, or the number of
pending records or the high-water of a stream. -/
def Storage.ChangedTo (before storage : Storage) : Prop :=
  storage.storageStats ≠ before.storageStats ∨ ∃ streamId,
    (storage.streamStats streamId).pendingRecords ≠ (before.streamStats streamId).pendingRecords ∨
      storage.streamHighwater streamId ≠ before.streamHighwater streamId

/-- Nothing is pending in a stream without a high-water. -/
theorem pendingRecords_of_unknown (sound : storage.indexView.Sound)
    (unknown : storage.streamHighwater streamId = none) :
    (storage.streamStats streamId).pendingRecords = 0 := by
  have nothing : (storage.stream streamId).pending = ∅ := by
    refine ExtTreeMap.ext_getElem? fun sequence => ?_
    rw [ExtTreeMap.getElem?_empty]
    cases found : (storage.stream streamId).pending[sequence]? with
    | none => rfl
    | some pointer =>
      obtain ⟨-, record, placed, sameStream, -, -⟩ := sound.indexes.place streamId sequence pointer found
      obtain ⟨highwater, isHighwater, -⟩ := sound.indexes.below _ _ record trivial placed
      rw [sameStream] at isHighwater
      have known : storage.streamHighwater streamId = some highwater := isHighwater
      rw [unknown] at known
      cases known
  rw [streamStats_eq, StreamState.stats, nothing, ExtTreeMap.size_empty]
  rfl

/-- **The test of the refresh sees every change a client waits for.** -/
theorem changed_publishStorage (shows : Shows before view) (soundBefore : before.indexView.Sound)
    (sound : storage.indexView.Sound) (refreshes : Refreshes (· ∈ streams) before storage)
    (isRefreshed : publishStorage storage streams view = .ok after)
    (changed : before.ChangedTo storage) : after.2 = true := by
  refine Bool.eq_true_of_not_eq_false fun unchanged => ?_
  have after_shows := shows_publishStorage shows refreshes isRefreshed
  obtain ⟨stats, isStats, refreshed⟩ :=
    publishStorage_eq_ok (shows.below.grows refreshes) isRefreshed
  obtain ⟨sameStats, sameStreams⟩ := refreshed.unchanged unchanged
  have same : view.storage = stats := by simpa using sameStats
  have published : ∀ streamId, storage.publishedStream streamId = before.publishedStream streamId := by
    intro streamId
    rw [← after_shows.streams, sameStreams]
    exact shows.streams streamId
  rcases changed with differs | ⟨streamId, differs⟩
  · rw [isStats, ← same, shows.stats] at differs
    exact differs rfl
  · have shown := published streamId
    unfold Storage.publishedStream at shown
    cases isBefore : before.streamHighwater streamId with
    | none =>
      rw [isBefore, Option.map_none, Option.map_eq_none_iff] at shown
      rcases differs with count | highwater
      · rw [pendingRecords_of_unknown sound shown, pendingRecords_of_unknown soundBefore isBefore] at count
        exact count rfl
      · rw [shown, isBefore] at highwater
        exact highwater rfl
    | some value =>
      rw [isBefore, Option.map_some, Option.map_eq_some_iff] at shown
      obtain ⟨later, isLater, sameStream⟩ := shown
      obtain ⟨stats, rfl⟩ := PublishedStream.mk.inj sameStream
      rcases differs with count | highwater
      · rw [stats] at count
        exact count rfl
      · rw [isLater, isBefore] at highwater
        exact highwater rfl

end Named

end Refresh

/-! ### Jobs of the reactor -/

/-- The storage jobs after which the reactor publishes. -/
inductive ReactorJob where
  | append (units : List AppendUnit) (bounded : Bool) (clocks : JobClocks)
  | release (units : List ReleaseUnit)
  | reclaim (kind : ReclaimKind)
  | rollOver (clock : Clock)

/-- The streams that are refreshed after a job: those of its command. -/
def ReactorJob.streams : ReactorJob → List StreamId
  | .append units _ _ => (ExtTreeSet.ofList (units.map AppendUnit.streamId)).toList
  | .release units => (ExtTreeSet.ofList (units.map ReleaseUnit.streamId)).toList
  | .reclaim _ => []
  | .rollOver _ => []

section

variable [Hasher] {world middle final : World}

/-- **A job succeeds**: it returns, and what it returns is no failure. -/
def ReactorJob.Succeeds : ReactorJob → World → World → Prop
  | .append units bounded clocks, world, final => ∃ answer,
      Returns (executeAppendJob units bounded clocks) world answer final ∧
        ∀ error selected, answer ≠ .failure error selected
  | .release units, world, final => Returns (releaseGroup units) world () final
  | .reclaim kind, world, final => ∃ report, Returns (Camus.reclaim kind) world report final
  | .rollOver clock, world, final => ∃ isSealed, Returns (sealExpired clock) world isSealed final

/-- A selection changes the root only by a reclamation. -/
theorem returns_selectUnits {physicalLimit : Nat} {selected : Option Nat × CapacityCheck}
    (returned : Returns (selectUnits units physicalLimit clocks) world selected final) :
    final = world ∨ ∃ report, Returns (reclaim .automatic) world report final := by
  obtain ⟨_, -, returned⟩ := (Returns.bind_getStorage returned).bind_ofExcept
  split at returned
  · obtain ⟨work, -, returned⟩ := returned.bind_ofExcept
    split at returned
    · obtain ⟨report, middle, reclaims, returned⟩ := returned.bind
      obtain ⟨_, -, returned⟩ := (Returns.bind_getStorage returned).bind_ofExcept
      obtain ⟨-, rfl⟩ := returned.ofExcept
      exact .inr ⟨report, reclaims⟩
    · exact .inl returned.result.2
  · exact .inl returned.result.2

/-- An append job that does not fail is at most a reclamation and an append of some of its units. -/
theorem returns_executeAppendJob {bounded : Bool} {answer : AppendJob}
    (returned : Returns (executeAppendJob units bounded clocks) world answer final)
    (succeeds : ∀ error selected, answer ≠ .failure error selected) :
    ∃ middle, (middle = world ∨ ∃ report, Returns (reclaim .automatic) world report middle) ∧
      (final = middle ∨ ∃ selected ids,
        Returns (appendGroup (units.take selected) clocks.expiry clocks.creation) middle ids final) := by
  have appends : ∀ {chosen : World} {selected : Nat},
      Returns (appendSelected units selected clocks) chosen answer final → ∃ ids,
        Returns (appendGroup (units.take selected) clocks.expiry clocks.creation) chosen ids final := by
    intro chosen selected appended
    obtain ⟨outcome, last, attempted, answers⟩ := appended.bind
    rcases Returns.attempt attempted with ⟨ids, rfl, wrote⟩ | ⟨reason, rfl, -⟩
    · obtain ⟨-, rfl⟩ := answers.pure
      exact ⟨ids, wrote⟩
    · exact absurd answers.pure.1 (succeeds _ _)
  obtain ⟨physical, first, attempted, answers⟩ := (Returns.bind_getStorage returned).bind
  rcases Returns.attempt attempted with ⟨limit, rfl, selects⟩ | ⟨reason, rfl, -⟩
  · obtain ⟨-, rfl⟩ := selects.ofExcept
    simp only at answers
    split at answers
    · obtain ⟨selection, chosen, attempted, answers⟩ := answers.bind
      rcases Returns.attempt attempted with ⟨⟨selected, check⟩, rfl, selects⟩ | ⟨reason, rfl, -⟩
      · refine ⟨chosen, returns_selectUnits selects, ?_⟩
        cases selected with
        | none => exact .inl answers.pure.2
        | some selected => exact .inr ⟨selected, appends answers⟩
      · exact absurd answers.pure.1 (succeeds _ _)
    · exact ⟨first, .inl rfl, .inr ⟨limit, appends answers⟩⟩
  · exact absurd answers.pure.1 (succeeds _ _)

theorem mem_streams {ids : List StreamId} :
    streamId ∈ (ExtTreeSet.ofList ids).toList ↔ streamId ∈ ids := by
  rw [ExtTreeSet.mem_toList, ExtTreeSet.mem_ofList, List.contains_iff_mem]

/-- What a job that succeeds leaves: a state of the root, of the same identity, in which only the
streams of the command have changed. -/
theorem job_succeeds {job : ReactorJob} (reached : Reached world) (succeeds : job.Succeeds world final) :
    Reached final ∧ final.storage.identity = world.storage.identity ∧
      Refreshes (· ∈ job.streams) world.storage final.storage := by
  cases job with
  | append units bounded clocks =>
    obtain ⟨answer, returned, notFailed⟩ := succeeds
    obtain ⟨middle, reclaims, appends⟩ := returns_executeAppendJob returned notFailed
    have first : Reached middle ∧ middle.storage.identity = world.storage.identity ∧
        Refreshes (· ∈ (ReactorJob.append units bounded clocks).streams) world.storage
          middle.storage := by
      rcases reclaims with rfl | ⟨report, reclaims⟩
      · exact ⟨reached, rfl, .of_streams rfl⟩
      · exact ⟨@Reached.operated _ (.reclaim .automatic) _ _ reached ⟨report, reclaims⟩,
          (keeps_reclaim _).returns reclaims, refreshes_reclaim reached reclaims⟩
    obtain ⟨middleReached, sameIdentity, refreshes⟩ := first
    rcases appends with rfl | ⟨selected, ids, appends⟩
    · exact ⟨middleReached, sameIdentity, refreshes⟩
    · refine ⟨@Reached.operated _ (.append _ _ _) _ _ middleReached ⟨ids, appends⟩,
        ((keeps_appendGroup _ _ _).returns appends).trans sameIdentity,
        refreshes.trans (refreshes_appendGroup (sound_reached middleReached) ?_ appends)⟩
      intro unit member
      exact mem_streams.mpr (List.mem_map_of_mem (List.mem_of_mem_take member))
  | release units =>
    exact ⟨@Reached.operated _ (.release units) _ _ reached succeeds,
      (keeps_releaseGroup _).returns succeeds,
      refreshes_releaseGroup (fun unit member => mem_streams.mpr (List.mem_map_of_mem member)) succeeds⟩
  | reclaim kind =>
    obtain ⟨report, returned⟩ := succeeds
    exact ⟨@Reached.operated _ (.reclaim kind) _ _ reached ⟨report, returned⟩,
      (keeps_reclaim _).returns returned, refreshes_reclaim reached returned⟩
  | rollOver clock =>
    obtain ⟨isSealed, returned⟩ := succeeds
    exact ⟨@Reached.operated _ (.sealExpired clock) _ _ reached ⟨isSealed, returned⟩,
      (keeps_sealExpired _).returns returned, refreshes_sealExpired returned⟩

/-! ### Runs -/

/-- Where the reactor stands: before a job, after a job whose streams are not refreshed yet, or after
the refresh and before the notification. -/
inductive Stage where
  | idle
  | ran (streams : List StreamId)
  | refreshed (changed : Bool)

/-- **The reactor as far as the view sees it.** `failed` records that a publication has failed. -/
structure Publishing where
  world : World
  view : View
  shared : Shared
  stage : Stage
  failed : Bool

/-- One step: a job succeeds, the view is refreshed or cannot be, the change is notified. -/
inductive Publishes : Publishing → Publishing → Prop
  | works {job : ReactorJob} {state : Publishing} {final : World} :
    state.stage = .idle → job.Succeeds state.world final →
      Publishes state { state with world := final, stage := .ran job.streams }
  | refreshes {state : Publishing} {streams : List StreamId} {view : View} {changed : Bool} :
    state.stage = .ran streams →
    publishStorage state.world.storage streams state.view = .ok (view, changed) →
      Publishes state { state with view := view, stage := .refreshed changed }
  | refuses {state : Publishing} {streams : List StreamId} {error : Error} :
    state.stage = .ran streams → publishStorage state.world.storage streams state.view = .error error →
      Publishes state { state with
        view := state.view.count state.world.storage
        shared := state.shared.poison .statePublication error
        stage := .idle
        failed := true }
  | notifies {state : Publishing} {changed : Bool} : state.stage = .refreshed changed →
      Publishes state { state with
        shared := if changed then state.shared.notify else state.shared
        stage := .idle }

/-- A root that was just opened, with its whole view. -/
def Publishing.Opened (state : Publishing) : Prop :=
  (∃ config entropy listing fs,
    Returns (Storage.open config entropy listing) fs state.world.storage state.world.fs) ∧
    viewFromStorage state.world.storage = .ok state.view ∧ state.shared = .opened ∧
    state.stage = .idle ∧ state.failed = false

/-- Any number of steps. -/
def Publishing.Run : Publishing → Publishing → Prop := Relation.ReflTransGen Publishes

/-- The view at a stage: it shows the root, or the root before the last job. -/
def Publishing.Current (state : Publishing) : Prop :=
  match state.stage with
  | .idle => Shows state.world.storage state.view
  | .refreshed _ => Shows state.world.storage state.view
  | .ran streams => ∃ before, Reached before ∧ Shows before.storage state.view ∧
      Refreshes (· ∈ streams) before.storage state.world.storage

/-- **What holds in every state of a run.** -/
structure Publishing.Sound (state : Publishing) : Prop where
  reached : Reached state.world
  below : state.view.Below state.world.storage
  current : state.failed = false → state.Current

section Steps

variable {state next later : Publishing}

theorem Publishing.Opened.sound (opened : state.Opened) : state.Sound := by
  obtain ⟨⟨config, entropy, listing, fs, returned⟩, isView, -, isIdle, -⟩ := opened
  have shows := viewFromStorage_iff.mp isView
  refine ⟨.opened returned, shows.below, fun _ => ?_⟩
  unfold Publishing.Current
  rw [isIdle]
  exact shows

theorem Publishes.sound (sound : state.Sound) (publishes : Publishes state next) : next.Sound := by
  cases publishes with
  | works isIdle succeeds =>
    obtain ⟨reached, -, refreshes⟩ := job_succeeds sound.reached succeeds
    refine ⟨reached, sound.below.grows refreshes, fun notFailed => ?_⟩
    have shows := sound.current notFailed
    unfold Publishing.Current at shows
    rw [isIdle] at shows
    exact ⟨state.world, sound.reached, shows, refreshes⟩
  | refreshes ran isRefreshed =>
    obtain ⟨stats, -, refreshed⟩ := publishStorage_eq_ok sound.below isRefreshed
    have below : ({ state.view.count state.world.storage with storage := stats } : View).Below
        state.world.storage := sound.below
    refine ⟨sound.reached, below.refreshed refreshed, fun notFailed => ?_⟩
    have current := sound.current notFailed
    unfold Publishing.Current at current
    rw [ran] at current
    obtain ⟨before, -, shows, refreshes⟩ := current
    exact shows_publishStorage shows refreshes isRefreshed
  | refuses _ _ => exact ⟨sound.reached, sound.below, fun never => by cases never⟩
  | notifies isRefreshed =>
    refine ⟨sound.reached, sound.below, fun notFailed => ?_⟩
    have shows := sound.current notFailed
    unfold Publishing.Current at shows
    rw [isRefreshed] at shows
    exact shows

/-- Between two jobs the view shows the root. -/
theorem Publishing.Sound.shows (sound : state.Sound) (notFailed : state.failed = false)
    (published : ∀ streams, state.stage ≠ .ran streams) : Shows state.world.storage state.view := by
  have current := sound.current notFailed
  unfold Publishing.Current at current
  cases isStage : state.stage with
  | idle => rwa [isStage] at current
  | refreshed _ => rwa [isStage] at current
  | ran streams => exact absurd isStage (published streams)

/-- Along a run the root keeps its identity and no high-water goes down. -/
def Advances (world final : World) : Prop :=
  final.storage.identity = world.storage.identity ∧
    Refreshes (fun _ => True) world.storage final.storage

theorem Publishes.advances (sound : state.Sound) (publishes : Publishes state next) :
    Advances state.world next.world := by
  cases publishes with
  | works _ succeeds =>
    obtain ⟨-, sameIdentity, refreshes⟩ := job_succeeds sound.reached succeeds
    exact ⟨sameIdentity, refreshes.mono fun _ _ => trivial⟩
  | refreshes _ _ => exact ⟨rfl, .of_streams rfl⟩
  | refuses _ _ => exact ⟨rfl, .of_streams rfl⟩
  | notifies _ => exact ⟨rfl, .of_streams rfl⟩

/-- What every step keeps and adds up to, a run does. -/
theorem Publishing.Run.sound (sound : state.Sound) (run : state.Run later) :
    later.Sound ∧ Advances state.world later.world := by
  induction run with
  | refl => exact ⟨sound, rfl, .of_streams rfl⟩
  | tail _ last ih =>
    obtain ⟨before, sameIdentity, refreshes⟩ := ih
    obtain ⟨lastIdentity, lastRefreshes⟩ := last.advances before
    exact ⟨last.sound before, lastIdentity.trans sameIdentity, refreshes.trans lastRefreshes⟩

/-! ### Releases -/

/-- The client's check of one identity against the view. -/
def preflightId (rootId : RootId) (view : View) (streamId : StreamId) (id : RecordId) :
    Except Error Unit := do
  ensure (id.rootId = rootId && id.streamId = streamId) (.recordIdScopeMismatch id streamId)
  ensure (!(view.streams[streamId]?.map (·.highwater)).all
    fun highwater => highwater < id.sequence) (.unknownRecordId id)

/-- The client's check of the identities of a release. -/
def preflightRelease (rootId : RootId) (view : View) (unit : ReleaseUnit) : Except Error Unit := do
  let _ ← tryMap (preflightId rootId view unit.streamId) unit.ids
  return ()

/-- What a client checks before it sends a release: the number of identities, then each of them. -/
def admitRelease (rootId : RootId) (maxReleaseRecords : Nat) (view : View) (unit : ReleaseUnit) :
    Except Error Unit := do
  ensure (unit.ids.length ≤ maxReleaseRecords)
    (.releaseTooLarge unit.ids.length maxReleaseRecords)
  preflightRelease rootId view unit

/-- A release that the view admits is admitted by a root that is at least as far. -/
theorem validateRelease_of_admitRelease {storage : Storage} {view : View} {unit : ReleaseUnit}
    (below : view.Below storage)
    (admitted : admitRelease storage.rootId storage.config.maxReleaseRecords view unit = .ok ()) :
    storage.validateRelease unit = .ok () := by
  simp only [admitRelease, preflightRelease, bind_eq_ok, ensure_eq_ok] at admitted
  obtain ⟨_, few, checked, isChecked, -⟩ := admitted
  have each : ∀ ids checks, tryMap (preflightId storage.rootId view unit.streamId) ids =
      .ok checks → ∃ others,
        tryMap (storage.validateReleaseId unit.streamId) ids = .ok others := by
    intro ids
    induction ids with
    | nil => exact fun _ _ => ⟨[], rfl⟩
    | cons id rest ih =>
      intro checks mapped
      obtain ⟨_, remaining, first, tail, -⟩ := tryMap_cons_eq_ok.mp mapped
      obtain ⟨others, isOthers⟩ := ih remaining tail
      simp only [preflightId, bind_eq_ok, ensure_eq_ok] at first
      obtain ⟨_, scope, known⟩ := first
      refine ⟨() :: others, tryMap_cons_eq_ok.mpr ⟨(), others, ?_, isOthers, rfl⟩⟩
      simp only [Storage.validateReleaseId, bind_eq_ok, ensure_eq_ok]
      refine ⟨(), scope, ?_⟩
      cases found : view.streams[unit.streamId]? with
      | none =>
        rw [found] at known
        cases known
      | some published =>
        rw [found] at known
        obtain ⟨highwater, isHighwater, bounded⟩ := below unit.streamId published found
        have assigned : storage.streams[unit.streamId]?.bind (·.highwater) = some highwater := by
          rw [← isHighwater]
          show _ = (storage.streams[unit.streamId]?.getD .default).highwater
          cases storage.streams[unit.streamId]? <;> rfl
        have short : id.sequence ≤ published.highwater := by simpa using known
        simpa [assigned] using short.trans bounded
  obtain ⟨others, isOthers⟩ := each unit.ids checked isChecked
  simp only [Storage.validateRelease, bind_eq_ok, ensure_eq_ok]
  exact ⟨(), few, others, isOthers, rfl⟩

/-! ### The whole machine -/

/-- **The published view is exact and wakes those who wait.** In every run from an open, as long as no
publication failed, the view between two jobs is the whole view of the storage, and a job that changes
what clients wait for is followed by one more event, after the view has changed. In every state the
high-waters of the view are at most those of the storage, and a release that a client sends is not
refused by any later state. -/
theorem publication_exact {start : Publishing} (opened : start.Opened) (run : start.Run state) :
    (state.failed = false → (∀ streams, state.stage ≠ .ran streams) →
      viewFromStorage state.world.storage = .ok state.view) ∧
    (∀ ran refreshed notified, state.stage = .idle → Publishes state ran → Publishes ran refreshed →
      Publishes refreshed notified → notified.failed = false →
      state.world.storage.ChangedTo ran.world.storage →
        viewFromStorage ran.world.storage = .ok refreshed.view ∧ notified.view = refreshed.view ∧
        refreshed.shared = state.shared ∧ notified.shared = refreshed.shared.notify) ∧
    (∀ (streamId : StreamId) (published : PublishedStream),
      state.view.streams[streamId]? = some published →
        ∃ highwater, state.world.storage.streamHighwater streamId = some highwater ∧
          published.highwater ≤ highwater) ∧
    (∀ (unit : ReleaseUnit) (later : Publishing), state.Run later →
      admitRelease start.world.storage.rootId start.world.storage.config.maxReleaseRecords state.view
        unit = .ok () → later.world.storage.validateRelease unit = .ok ()) := by
  obtain ⟨sound, sameIdentity, -⟩ := Publishing.Run.sound opened.sound run
  refine ⟨fun notFailed published => viewFromStorage_iff.mpr (sound.shows notFailed published), ?_,
    sound.below, fun unit later ahead admitted => ?_⟩
  · intro ran refreshed notified isIdle works refreshes notifies notFailed changed
    cases works with
    | works _ succeeds =>
      cases refreshes with
      | works never _ => cases never
      | refuses _ _ =>
        cases notifies with
        | works _ _ => cases notFailed
        | refreshes never _ => cases never
        | refuses never _ => cases never
        | notifies never => cases never
      | notifies never => cases never
      | refreshes isRan isRefreshed =>
        obtain rfl := Stage.ran.inj isRan
        cases notifies with
        | works never _ => cases never
        | refreshes never _ => cases never
        | refuses never _ => cases never
        | notifies isChanged =>
          obtain rfl := Stage.refreshed.inj isChanged
          have shows := sound.shows notFailed fun streams never => by
            rw [isIdle] at never
            cases never
          obtain ⟨reached, -, refreshes⟩ := job_succeeds sound.reached succeeds
          have found := changed_publishStorage shows (sound_reached sound.reached) (sound_reached reached)
            refreshes isRefreshed changed
          refine ⟨viewFromStorage_iff.mpr (shows_publishStorage shows refreshes isRefreshed), rfl, rfl, ?_⟩
          exact if_pos found
    | refreshes never _ =>
      rw [isIdle] at never
      cases never
    | refuses never _ =>
      rw [isIdle] at never
      cases never
    | notifies never =>
      rw [isIdle] at never
      cases never
  · obtain ⟨-, laterIdentity, grows⟩ := Publishing.Run.sound sound ahead
    have identity : later.world.storage.identity = start.world.storage.identity :=
      laterIdentity.trans sameIdentity
    have sameRoot : later.world.storage.rootId = start.world.storage.rootId :=
      congrArg Prod.fst identity
    have sameConfig : later.world.storage.config = start.world.storage.config :=
      congrArg Prod.snd identity
    refine validateRelease_of_admitRelease (sound.below.grows grows) ?_
    rw [sameRoot, sameConfig]
    exact admitted

end Steps

end

/-! ### Sample runs -/

namespace PublicationSample

def config (releases : Nat) : Config :=
  { Config.sample with
    segmentBytes := 352
    maxReleaseRecords := releases
    maxCommitBytes := wordMax }

def job : ReactorJob := .append [Sample.unit 1] false .sample

/-- The answer of the job: it appends its one record. -/
def answer : AppendJob := .complete [[⟨.sample, 1, 0⟩]] 1

/-- The root and its view after the open, and the root after one append. -/
def run (releases : Nat) : Option (World × View × World) := do
  let opened ← Sample.opens (config releases) .fresh
  let view ← (viewFromStorage opened.storage).toOption
  let (found, appended) ← (@executeAppendJob Hasher.fnv [Sample.unit 1] false .sample).completion opened
  if found = answer then some (opened, view, appended) else none

/-- The machine before the job and after it. -/
def start (opened : World) (view : View) : Publishing := ⟨opened, view, .opened, .idle, false⟩

def ran (appended : World) (view : View) : Publishing :=
  ⟨appended, view, .opened, .ran job.streams, false⟩

theorem of_run {releases : Nat} {opened appended : World} {view : View}
    (isRun : run releases = some (opened, view, appended)) :
    @Publishing.Opened Hasher.fnv (start opened view) ∧
      @Publishes Hasher.fnv (start opened view) (ran appended view) := by
  simp only [run, Option.bind_eq_bind, Option.bind_eq_some_iff, Option.ite_none_right_eq_some,
    Option.some.injEq, Prod.mk.injEq, Prod.exists] at isRun
  obtain ⟨opened, isOpened, shownView, isView, found, last, appends, isAnswer, rfl, rfl, rfl⟩ := isRun
  refine ⟨⟨⟨_, _, _, _, Sample.returns_of_opens isOpened⟩, toOption_eq_some.mp isView, rfl, rfl, rfl⟩, ?_⟩
  refine @Publishes.works Hasher.fnv job (start opened shownView) last rfl
    ⟨found, returns_of_completion appends, ?_⟩
  intro error selected
  rw [isAnswer]
  exact AppendJob.noConfusion

end PublicationSample

section

open PublicationSample

/-- **A publication may fail after a job that succeeds**: the statistics overflow, and the view does not
show the stream that was appended to. -/
theorem publication_overflows : ∃ before ran after : Publishing,
    @Publishing.Opened Hasher.fnv before ∧ @Publishes Hasher.fnv before ran ∧
    @Publishes Hasher.fnv ran after ∧ after.stage = .idle ∧
    after.world.storage.streamHighwater 1 = some 0 ∧ after.view.knownStreams = [] ∧
    ∀ view, viewFromStorage after.world.storage ≠ .ok view := by
  have evaluated : (PublicationSample.run 1152921504606846958).any (fun (_, view, appended) =>
      (publishStorage appended.storage job.streams view).toOption.isNone &&
        decide (appended.storage.streamHighwater 1 = some 0) && decide (view.knownStreams = []) &&
        (viewFromStorage appended.storage).toOption.isNone) = true := by decide +kernel
  obtain ⟨⟨opened, view, appended⟩, isRun, checked⟩ := exists_of_any evaluated
  simp only [Bool.and_eq_true, decide_eq_true_eq] at checked
  obtain ⟨⟨⟨refused, isHighwater⟩, unknown⟩, noView⟩ := checked
  obtain ⟨isOpened, works⟩ := of_run isRun
  cases isError : publishStorage appended.storage job.streams view with
  | ok _ =>
    rw [isError] at refused
    cases refused
  | error error =>
    refine ⟨_, _, _, isOpened, works,
      @Publishes.refuses Hasher.fnv (PublicationSample.ran appended view) job.streams error rfl isError,
      rfl, isHighwater, unknown, fun other shown => ?_⟩
    have isView : viewFromStorage appended.storage = .ok other := shown
    rw [isView] at noView
    cases noView

/-- One append is published: the view shows its stream, the clients are woken, and the release of its
record is admitted. -/
theorem publication_exact_sample : ∃ before after : Publishing,
    @Publishing.Opened Hasher.fnv before ∧ @Publishing.Run Hasher.fnv before after ∧
    viewFromStorage after.world.storage = .ok after.view ∧ after.view.knownStreams = [1] ∧
    after.shared = before.shared.notify ∧
    after.world.storage.validateRelease ⟨1, [⟨.sample, 1, 0⟩]⟩ = .ok () := by
  have evaluated : (PublicationSample.run 4).any (fun (opened, view, appended) =>
      decide (opened.storage.streamHighwater 1 = none) &&
        decide (appended.storage.streamHighwater 1 = some 0) &&
        (publishStorage appended.storage job.streams view).toOption.any fun (refreshed, _) =>
          decide (refreshed.knownStreams = [1]) &&
            (admitRelease opened.storage.rootId opened.storage.config.maxReleaseRecords refreshed
              ⟨1, [⟨.sample, 1, 0⟩]⟩).toOption.isSome) = true := by decide +kernel
  obtain ⟨⟨opened, view, appended⟩, isRun, checked⟩ := exists_of_any evaluated
  simp only [Bool.and_eq_true, decide_eq_true_eq] at checked
  obtain ⟨⟨unknown, isKnown⟩, checked⟩ := checked
  obtain ⟨⟨refreshed, changed⟩, isRefreshed, checked⟩ := exists_of_any checked
  simp only [Bool.and_eq_true, decide_eq_true_eq] at checked
  obtain ⟨known, isAdmitted⟩ := checked
  obtain ⟨isOpened, works⟩ := of_run isRun
  have refreshes := @Publishes.refreshes Hasher.fnv (ran appended view) job.streams refreshed changed rfl
    (toOption_eq_some.mp isRefreshed)
  have notifies := @Publishes.notifies Hasher.fnv
    { ran appended view with view := refreshed, stage := .refreshed changed } changed rfl
  have differs : opened.storage.ChangedTo appended.storage :=
    .inr ⟨1, .inr (by rw [unknown, isKnown]; exact Option.some_ne_none _)⟩
  obtain ⟨-, wakes, -, -⟩ := @publication_exact Hasher.fnv _ _ isOpened .refl
  obtain ⟨-, -, -, woken⟩ := wakes _ _ _ rfl works refreshes notifies rfl differs
  have run := ((Relation.ReflTransGen.single works).tail refreshes).tail notifies
  obtain ⟨exact_, -, -, admits⟩ := @publication_exact Hasher.fnv _ _ isOpened run
  refine ⟨_, _, isOpened, run, exact_ rfl (fun _ never => by cases never), known, woken, ?_⟩
  obtain ⟨done, isDone⟩ := Option.isSome_iff_exists.mp isAdmitted
  exact admits _ _ .refl (toOption_eq_some.mp isDone)

end

end Camus
