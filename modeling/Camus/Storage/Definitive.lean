/-
**Refusals that are meant for good.**

A bounded root refuses a group of appends for good when the root that holds nothing else is too small
for it. Releasing, reclaiming and compacting then should never make room for the group.

* `Roster`, `Frees` — what these operations leave: the configuration and the set of known streams.
* `Storage.minimumWeight_le_of_admitted` — a root that admits a group is no lighter than an emptied root
  with the group, up to the checkpoint entries of the streams it does not know yet.
* `definitive_iff` — the refusal is definitive exactly if it does not rest on these entries.
-/

import Camus.Storage.Admission

namespace Camus

open Codec Checked Disk FaultIo Result Std

variable {clock : Clock} {whenFull : FullPolicy} {units : List AppendUnit} {eligible : List Nat}
  {segmentId fewer totalBytes capacity needed : Nat} {target : Option Nat} {report : ReclaimReport}
  {segment : Segment} {opened appended released reclaimed : World}

/-! ### What freeing operations leave -/

/-- The configuration and the known streams are the same. -/
structure Roster (storage next : Storage) : Prop where
  config : next.config = storage.config
  members : ∀ streamId, streamId ∈ next.streams ↔ streamId ∈ storage.streams

namespace Roster

variable {storage middle next : Storage}

theorem refl (storage : Storage) : Roster storage storage := ⟨rfl, fun _ => Iff.rfl⟩

theorem trans (first : Roster storage middle) (second : Roster middle next) : Roster storage next :=
  ⟨second.config.trans first.config, fun streamId =>
    (second.members streamId).trans (first.members streamId)⟩

theorem streams_size (roster : Roster storage next) : next.streams.size = storage.streams.size := by
  have same := Maps.size_eq_dedup_length fun streamId =>
    (roster.members streamId).trans ExtTreeMap.mem_keys.symm
  rw [same, List.dedup_eq_self.mpr ExtTreeMap.nodup_keys, ExtTreeMap.length_keys]

theorem unknownStreams (roster : Roster storage next) (demand : GroupDemand) :
    next.unknownStreams demand = storage.unknownStreams demand := by
  refine List.countP_congr fun streamId _ => ?_
  have same := roster.members streamId
  rw [← ExtTreeMap.contains_iff_mem, ← ExtTreeMap.contains_iff_mem] at same
  rw [Bool.eq_iff_iff.mpr same]

theorem minimumWeight (roster : Roster storage next) (demand : GroupDemand) :
    next.minimumWeight demand = storage.minimumWeight demand := by
  unfold Storage.minimumWeight Storage.compactedBytes Storage.groupWeight Storage.streamsAfter
  rw [roster.streams_size, roster.unknownStreams, roster.config]

/-- A known stream changes. -/
theorem insert {streamId : StreamId} {stream : StreamState} (known : streamId ∈ storage.streams)
    (config : next.config = storage.config)
    (streams : next.streams = storage.streams.insert streamId stream) : Roster storage next := by
  refine ⟨config, fun other => ?_⟩
  rw [streams, ExtTreeMap.mem_insert, LawfulEqOrd.compare_eq_iff_eq]
  constructor
  · rintro (rfl | member)
    · exact known
    · exact member
  · exact .inr

theorem markRecordReleased {identity : Identity}
    (marked : storage.markRecordReleased identity = .ok next) : Roster storage next := by
  obtain ⟨-, rfl⟩ | ⟨state, place, segment, record, isMarked⟩ := markRecordReleased_eq_ok.mp marked
  · exact refl _
  · rw [isMarked.left]
    exact insert (Maps.mem_iff_found.mpr ⟨_, isMarked.isState⟩) rfl rfl

theorem persistHighwater {highwater : StreamHighwater}
    (persisted : storage.persistHighwater highwater = .ok next) : Roster storage next := by
  obtain ⟨stream, isStream, rfl⟩ := Storage.persistHighwater_eq_ok.mp persisted
  exact insert (Maps.mem_iff_found.mpr ⟨_, isStream⟩) rfl rfl

theorem dropSegment (dropped : storage.dropSegment segmentId = .ok next) : Roster storage next := by
  obtain ⟨segment, count, bytes, -, -, -, rfl⟩ := Storage.dropSegment_eq_ok.mp dropped
  exact ⟨rfl, fun _ => Iff.rfl⟩

theorem tryFold {α : Type} {step : Storage → α → Except Error Storage} {items : List α}
    (one : ∀ {before after : Storage} {item : α}, step before item = .ok after → Roster before after)
    (folded : tryFold step storage items = .ok next) : Roster storage next :=
  tryFold_induction (fun total => Roster storage total) (refl storage)
    (fun _ _ _ _ kept stepped => kept.trans (one stepped)) folded

end Roster

section

variable [Hasher] {world final : World}

theorem roster_compacts (compacts : Returns compactManifest world () final ∨ final = world) :
    Roster world.storage final.storage := by
  rcases compacts with returned | rfl
  · obtain ⟨_, _, _, _, -, -, rfl⟩ := returns_compactManifest returned
    exact ⟨rfl, fun streamId => ExtTreeMap.mem_map⟩
  · exact .refl _

theorem roster_seals (seals : Seals world final) : Roster world.storage final.storage := by
  rcases seals with rfl | ⟨segmentId, reason, -, seals⟩
  · exact .refl _
  · obtain ⟨_, _, _, _, _, _, _, -, -, -, -, -, rfl⟩ := returns_sealSegment seals
    exact ⟨rfl, fun _ => Iff.rfl⟩

theorem roster_releaseGroup {units : List ReleaseUnit} {value : Unit}
    (returned : Returns (releaseGroup units) world value final) :
    Roster world.storage final.storage := by
  obtain ⟨plan, -, ⟨-, rfl⟩ | ⟨-, manifest, fs, bytes, commits, marked, -, -, folded, compacts⟩⟩ :=
    returns_releaseGroup returned
  · exact .refl _
  · have released := Roster.tryFold Roster.markRecordReleased folded
    have announced : Roster world.storage marked := ⟨released.config, released.members⟩
    exact announced.trans (roster_compacts compacts)

theorem roster_removeSegments {lengths : List Nat}
    (returned : Returns (removeSegments eligible) world lengths final) :
    Roster world.storage final.storage := by
  induction eligible generalizing world lengths with
  | nil =>
    obtain ⟨-, rfl⟩ := Returns.result returned
    exact .refl _
  | cons segmentId rest ih =>
    obtain ⟨_, _, _, _, -, drops, -, -, removes⟩ := returns_removeSegments_cons returned
    exact (Roster.dropSegment drops).trans (ih removes)

theorem roster_reclaimBatch (returned : Returns (reclaimBatch eligible) world report final) :
    Roster world.storage final.storage := by
  rcases returns_reclaimBatch returned with ⟨-, -, rfl⟩ |
    ⟨_, _, _, _, persisted, _, _, afterRemoval, -, -, -, folded, removes, -, -, -, left⟩
  · exact .refl _
  · have persisting := Roster.tryFold Roster.persistHighwater folded
    have announced : Roster world.storage persisted := ⟨persisting.config, persisting.members⟩
    refine announced.trans ((roster_removeSegments removes).trans ?_)
    rw [left]
    exact ⟨rfl, fun _ => Iff.rfl⟩

theorem roster_reclaimBatches {batches : List (List Nat)} {start : ReclaimReport}
    (returned : Returns (reclaimBatches start batches) world report final) :
    Roster world.storage final.storage := by
  induction batches generalizing world start with
  | nil =>
    obtain ⟨-, rfl⟩ := Returns.result returned
    exact .refl _
  | cons batch rest ih =>
    obtain ⟨_, middle, reclaims, returned⟩ := returned.bind
    exact (roster_reclaimBatch reclaims).trans (ih returned)

theorem roster_reclaim {kind : ReclaimKind} (returned : Returns (reclaim kind) world report final) :
    Roster world.storage final.storage := by
  obtain ⟨sealed, reclaimed, compacted, maintenance, seals, reclaims, compacts, rfl⟩ :=
    returns_reclaim returned
  have kept := (roster_seals seals).trans
    ((roster_reclaimBatches reclaims).trans (roster_compacts compacts))
  exact ⟨kept.config, kept.members⟩

end

/-- A release, a reclamation or a compaction. -/
def Operation.frees : Operation → Bool
  | release _ => true
  | reclaim _ => true
  | compact => true
  | _ => false

section

variable [Hasher] {world final : World}

/-- **The states reached by releases, reclamation and compaction alone.** -/
inductive Frees (world : World) : World → Prop
  | refl : Frees world world
  | step {middle final : World} {operation : Operation} : Frees world middle →
    operation.frees = true → operation.Returns middle final → Frees world final

theorem Frees.reached (frees : Frees world final) (reached : Reached world) : Reached final := by
  induction frees with
  | refl => exact reached
  | step _ _ returned ih => exact .operated ih returned

theorem Frees.roster (frees : Frees world final) : Roster world.storage final.storage := by
  induction frees with
  | refl => exact .refl _
  | @step middle final operation _ isFreeing returned ih =>
    refine ih.trans ?_
    cases operation with
    | release units => exact roster_releaseGroup returned
    | reclaim kind =>
      obtain ⟨report, returned⟩ := returned
      exact roster_reclaim returned
    | compact => exact roster_compacts (.inl returned)
    | append units expiry creation => cases isFreeing
    | sealExpired clock => cases isFreeing

end

/-! ### The weight of a root after a group -/

namespace Storage

variable {storage : Storage} {demand : GroupDemand}

/-- The active segment accounts for the streams of a group: those it holds it has counted, the others
are added. -/
theorem recordCounts_size_le (balanced : storage.bookView.Balanced) {active : Nat} {segment : Segment}
    (found : storage.segments[active]? = some segment) :
    demand.recordCounts.size ≤ segment.uniqueStreams + storage.addedStreams demand active := by
  let absent (streamId : StreamId) : Bool :=
    storage.streams[streamId]?.bind (·.lastSegmentId) ≠ some active
  have all := List.length_eq_length_filter_add (l := demand.recordCounts.keys) absent
  rw [ExtTreeMap.length_keys] at all
  have added : (demand.recordCounts.keys.filter absent).length =
      storage.addedStreams demand active := (List.countP_eq_length_filter).symm
  have distinct : (demand.recordCounts.keys.filter fun streamId => !absent streamId).Nodup :=
    ExtTreeMap.nodup_keys.filter _
  have held : (demand.recordCounts.keys.filter fun streamId => !absent streamId).length ≤
      segment.streamIds.dedup.length := by
    refine (List.subperm_of_subset distinct fun streamId member => ?_).length_le
    have last := (List.mem_filter.mp member).2
    simp only [absent, ne_eq, decide_not, Bool.not_not, decide_eq_true_eq] at last
    obtain ⟨stream, isStream, isLast⟩ := Option.bind_eq_some_iff.mp last
    have entry : (StreamMap.entry storage.streams streamId).lastSegmentId = some active := by
      rw [StreamMap.entry, isStream]
      exact isLast
    exact List.mem_dedup.mpr ((balanced.last streamId active entry).2 segment found)
  have counted : segment.streamIds.dedup.length ≤ segment.uniqueStreams :=
    (balanced.unique active segment found).ge
  omega

/-- **The reserve after a group** covers the reserve of a root that holds nothing but the group. -/
theorem reserveOf_projectedLoads_ge (balanced : storage.bookView.Balanced)
    (live : ∀ active, target = some active → active ∈ storage.segments) :
    checkpointBytes (storage.streamsAfter demand) + entryBytes demand.totalRecords +
      groupReserve storage.config demand.recordCounts.size + segmentFooterLen ≤
      reserveOf storage.config (storage.streamsAfter demand) (storage.projectedLoads demand target)
        segmentFooterLen := by
  -- the load of the segment the group goes to covers the group
  obtain ⟨load, member, records, streams⟩ : ∃ load ∈ storage.projectedLoads demand target,
      demand.totalRecords ≤ load.1 ∧ demand.recordCounts.size ≤ load.2 := by
    cases target with
    | none => exact ⟨_, List.mem_append_right _ List.mem_cons_self, Nat.le_refl _, Nat.le_refl _⟩
    | some active =>
      obtain ⟨segment, found⟩ := Maps.mem_iff_found.mp (live active rfl)
      have held := ExtTreeMap.mem_toList_iff_getElem?_eq_some.mpr found
      refine ⟨_, List.mem_append_left _ (List.mem_map_of_mem held), ?_, ?_⟩
      · simp [projectedLoad]
      · simpa [projectedLoad] using @recordCounts_size_le storage demand balanced active segment found
  have single : List.SublistForall₂ LoadLe [(demand.totalRecords, demand.recordCounts.size)]
      (storage.projectedLoads demand target) :=
    List.sublistForall₂_iff.mpr ⟨[load], .cons ⟨records, streams⟩ .nil,
      List.singleton_sublist.mpr member⟩
  have reserve := reserveOf_mono storage.config (Nat.le_refl (storage.streamsAfter demand)) single
    (Nat.le_refl segmentFooterLen)
  simpa [reserveOf] using reserve

/-- The files of a root and the header of the segment a group goes to. -/
theorem actualFileBytes_ge (sound : storage.indexView.Sound) (balanced : storage.bookView.Balanced)
    (live : ∀ active, target = some active → active ∈ storage.segments) :
    rootSuperblockLen + checkpointBytes storage.streams.size + manifestLogHeaderLen +
      segmentHeaderLen ≤ storage.actualFileBytes + if target.isNone then segmentHeaderLen else 0 := by
  have covers : rootSuperblockLen + checkpointBytes storage.streams.size + manifestLogHeaderLen +
      segmentSum Segment.fileLen storage.segments storage.nextSegmentId ≤ storage.actualFileBytes +
        16 * segmentSum (fun segment => segment.records.length) storage.segments
          storage.nextSegmentId := balanced.covers_streams sound.identities
  cases target with
  | none =>
    have long : 16 * segmentSum (fun segment => segment.records.length) storage.segments
      storage.nextSegmentId ≤ segmentSum Segment.fileLen storage.segments storage.nextSegmentId :=
        balanced.segmentSum_le
    simp only [Option.isNone_none, if_true]
    omega
  | some active =>
    obtain ⟨segment, found⟩ := Maps.mem_iff_found.mp (live active rfl)
    have long : segmentHeaderLen + 16 * segmentSum (fun segment => segment.records.length)
      storage.segments storage.nextSegmentId ≤
        segmentSum Segment.fileLen storage.segments storage.nextSegmentId :=
          balanced.header_add_segmentSum_le sound.identities found
    omega

/-- **What is admitted is no heavier than the capacity**: the emptied root with the group fits, but for
the checkpoint entries of the streams the root does not know yet. -/
theorem minimumWeight_le_of_admitted (sound : storage.indexView.Sound)
    (balanced : storage.bookView.Balanced) (accounted : storage.Accounted)
    (bounded : storage.config.capacity = .bounded totalBytes whenFull)
    (isDemand : tryFold GroupDemand.add ⟨∅, 0, 0⟩ units = .ok demand)
    (answered : storage.checkAppendCapacity units clock = .ok .admitted) :
    storage.minimumWeight demand ≤ totalBytes + 16 * storage.unknownStreams demand := by
  obtain ⟨_, fits, isOther, isFits⟩ := counts_of_answered bounded answered
  cases isDemand.symm.trans isOther
  obtain ⟨-, within⟩ := (admitted_iff bounded accounted isDemand isFits).mp answered
  have live : ∀ active, storage.targetOf fits = some active → active ∈ storage.segments := by
    intro active isTarget
    unfold targetOf at isTarget
    split at isTarget
    · obtain ⟨segment, found, -⟩ := sound.isOpen active isTarget
      exact Maps.mem_iff_found.mpr ⟨_, found⟩
    · cases isTarget
  have reserve := @reserveOf_projectedLoads_ge _ _ demand balanced live
  have files := actualFileBytes_ge sound balanced live
  have streams : checkpointBytes (storage.streamsAfter demand) =
      checkpointBytes storage.streams.size + 16 * storage.unknownStreams demand := by
    unfold checkpointBytes streamsAfter
    omega
  unfold weightOf filesAfter at within
  unfold minimumWeight compactedBytes groupWeight
  omega

/-- A root without segments whose manifest is compacted. -/
structure Emptied (storage : Storage) : Prop where
  noSegments : storage.segments = ∅
  compacted : storage.actualFileBytes =
    rootSuperblockLen + checkpointBytes storage.streams.size + manifestLogHeaderLen

/-- **An emptied root admits what fits it**, new streams included. -/
theorem admitted_of_emptied (sound : storage.indexView.Sound) (emptied : storage.Emptied)
    (accounted : storage.Accounted)
    (bounded : storage.config.capacity = .bounded totalBytes whenFull)
    (isDemand : tryFold GroupDemand.add ⟨∅, 0, 0⟩ units = .ok demand)
    (short : storage.minimumWeight demand ≤ wordMax)
    (room : storage.minimumWeight demand ≤ totalBytes + 16 * storage.unknownStreams demand) :
    storage.checkAppendCapacity units clock = .ok .admitted := by
  have noActive : storage.activeSegment = none := by
    cases isActive : storage.activeSegment with
    | none => rfl
    | some active =>
      obtain ⟨segment, found, -⟩ := sound.isOpen active isActive
      have found : storage.segments[active]? = some segment := found
      rw [emptied.noSegments, ExtTreeMap.getElem?_empty] at found
      cases found
  have isFits : storage.activeFits demand clock = .ok false := by simp [activeFits, noActive]
  have weight : storage.weightOf demand (storage.targetOf false) + 16 * storage.unknownStreams demand =
      storage.minimumWeight demand := by
    have files := emptied.compacted
    rw [show storage.targetOf false = none from rfl,
      weightOf_of_empty emptied.noSegments noActive, minimumWeight, compactedBytes]
    unfold checkpointBytes streamsAfter at *
    omega
  exact (admitted_iff bounded accounted isDemand isFits).mpr ⟨by omega, by omega⟩

/-- What a refusal for good says. -/
theorem minimum_of_exceeds (accounted : storage.Accounted)
    (bounded : storage.config.capacity = .bounded capacity whenFull)
    (isDemand : tryFold GroupDemand.add ⟨∅, 0, 0⟩ units = .ok demand)
    (answered : storage.checkAppendCapacity units clock = .ok (.exceeds needed totalBytes)) :
    storage.minimumWeight demand ≤ wordMax := by
  obtain ⟨_, fits, isOther, isFits⟩ := counts_of_answered bounded answered
  cases isDemand.symm.trans isOther
  obtain ⟨computes, isExceeds⟩ :=
    (checkAppendCapacity_eq_ok bounded accounted isDemand isFits).mp answered
  unfold verdict at isExceeds
  split at isExceeds
  · cases isExceeds
  · rename_i heavy
    exact computes.minimum (Nat.not_le.mp heavy)

end Storage

/-! ### Definitive refusals -/

/-- **When a refusal for good is definitive.** A bounded root refused a group of appends for good. If
the capacity is too small also without the checkpoint entries of the streams that are new to the root,
then no state that releases, reclamation and compaction alone reach admits the group; and this
condition is necessary wherever they can empty and compact the root. -/
theorem definitive_iff [Hasher] {world : World} (reached : Reached world) {totalBytes : Nat}
    {whenFull : FullPolicy}
    (bounded : world.storage.config.capacity = .bounded totalBytes whenFull)
    {units : List AppendUnit} {clock : Clock} {demand : GroupDemand} {needed : Nat}
    (isDemand : tryFold GroupDemand.add ⟨∅, 0, 0⟩ units = .ok demand)
    (refused : world.storage.checkAppendCapacity units clock = .ok (.exceeds needed totalBytes)) :
    (totalBytes + 16 * world.storage.unknownStreams demand < world.storage.minimumWeight demand →
      ∀ later, Frees world later →
        later.storage.checkAppendCapacity units clock ≠ .ok .admitted) ∧
    ∀ emptied, Frees world emptied → emptied.storage.Emptied →
      (∀ later, Frees world later →
        later.storage.checkAppendCapacity units clock ≠ .ok .admitted) →
      totalBytes + 16 * world.storage.unknownStreams demand < world.storage.minimumWeight demand := by
  constructor
  · intro small later frees isAdmitted
    have reachedLater := frees.reached reached
    have roster := frees.roster
    have fits := Storage.minimumWeight_le_of_admitted (sound_reached reachedLater)
      (balanced_reached reachedLater) (accounted_reached reachedLater) (roster.config ▸ bounded)
      isDemand isAdmitted
    rw [roster.minimumWeight, roster.unknownStreams] at fits
    omega
  · intro emptied empties isEmptied never
    by_contra room
    have reachedEmptied := empties.reached reached
    have roster := empties.roster
    refine never emptied empties (Storage.admitted_of_emptied (sound_reached reachedEmptied) isEmptied
      (accounted_reached reachedEmptied) (roster.config ▸ bounded) isDemand ?_ ?_)
    · rw [roster.minimumWeight]
      exact Storage.minimum_of_exceeds (accounted_reached reached) bounded isDemand refused
    · rw [roster.minimumWeight, roster.unknownStreams]
      omega

/-! ### A refusal that is taken back

A bounded root takes one record of a stream and then refuses a record of another one for good. The
first record is released and its segment reclaimed. -/

namespace DefinitiveSample

def config (capacity : Nat) : Config := { Config.sample with capacity := .bounded capacity .block }

def newcomer : AppendUnit := Sample.unit 2

def demand : GroupDemand := ⟨(∅ : Highwaters).insert 2 1, 1, 128⟩

/-- The states after the append, and after the release and the reclamation. -/
def run (capacity : Nat) : Option (World × World) := do
  let appended ← Sample.run (config capacity) [Sample.append [Sample.unit 1]]
  let released ← Sample.operate appended (Sample.release 1 0)
  let reclaimed ← Sample.operate released (.reclaim .automatic)
  return (appended, reclaimed)

/-- The root has no segments and its control files are compacted. -/
def empties (world : World) : Bool :=
  world.storage.segments.isEmpty && world.storage.actualFileBytes =
    rootSuperblockLen + checkpointBytes world.storage.streams.size + manifestLogHeaderLen

theorem emptied_of_empties {world : World} (isEmpty : empties world = true) :
    world.storage.Emptied := by
  simp only [empties, Bool.and_eq_true, decide_eq_true_eq] at isEmpty
  exact ⟨ExtTreeMap.isEmpty_iff.mp isEmpty.1, isEmpty.2⟩

/-- What a run is. -/
theorem run_eq_some (isRun : run capacity = some (appended, reclaimed)) :
    @Reached Hasher.fnv appended ∧ @Frees Hasher.fnv appended reclaimed := by
  simp only [run, Option.bind_eq_bind, Option.bind_eq_some_iff, Option.pure_def, Option.some.injEq,
    Prod.mk.injEq] at isRun
  obtain ⟨_, appends, _, releases, _, reclaims, rfl, rfl⟩ := isRun
  have first := @Frees.step Hasher.fnv _ _ _ (Sample.release 1 0) (@Frees.refl Hasher.fnv _) rfl
    (Sample.returns_of_operate releases)
  exact ⟨Sample.reached_of_run appends, @Frees.step Hasher.fnv _ _ _ (.reclaim .automatic) first rfl
    (Sample.returns_of_operate reclaims)⟩

end DefinitiveSample

section

open DefinitiveSample

/-- **A refusal for good may be taken back**: the record of a new stream is refused for good, and
admitted after the only other record was released and reclaimed. -/
theorem admitted_after_exceeds : ∃ appended reclaimed : World, @Reached Hasher.fnv appended ∧
    appended.storage.config.capacity = .bounded 920 .block ∧
    appended.storage.checkAppendCapacity [newcomer] (.millis 5) = .ok (.exceeds 928 920) ∧
    @Frees Hasher.fnv appended reclaimed ∧ reclaimed.storage.Emptied ∧
    reclaimed.storage.checkAppendCapacity [newcomer] (.millis 5) = .ok .admitted := by
  have evaluated : (DefinitiveSample.run 920).any (fun (appended, reclaimed) =>
      decide (appended.storage.config = config 920) &&
        appended.storage.answers [newcomer] (.exceeds 928 920) && empties reclaimed &&
        reclaimed.storage.answers [newcomer] .admitted) = true := by decide +kernel
  obtain ⟨⟨appended, reclaimed⟩, isRun, checked⟩ := exists_of_any evaluated
  simp only [Bool.and_eq_true, decide_eq_true_eq] at checked
  obtain ⟨⟨⟨isConfig, refused⟩, isEmpty⟩, isAdmitted⟩ := checked
  obtain ⟨reached, frees⟩ := run_eq_some isRun
  exact ⟨appended, reclaimed, reached, by rw [isConfig]; rfl, Storage.answered_of_answers refused, frees,
    emptied_of_empties isEmpty, Storage.answered_of_answers isAdmitted⟩

theorem definitive_iff_sample : ∃ appended reclaimed : World, @Reached Hasher.fnv appended ∧
    appended.storage.checkAppendCapacity [newcomer] (.millis 5) = .ok (.exceeds 928 911) ∧
    @Frees Hasher.fnv appended reclaimed ∧ reclaimed.storage.Emptied ∧
    ∀ later, @Frees Hasher.fnv appended later →
      later.storage.checkAppendCapacity [newcomer] (.millis 5) ≠ .ok .admitted := by
  have evaluated : (DefinitiveSample.run 911).any (fun (appended, reclaimed) =>
      decide (appended.storage.config = config 911) &&
        appended.storage.answers [newcomer] (.exceeds 928 911) && empties reclaimed &&
        decide (911 + 16 * appended.storage.unknownStreams demand <
          appended.storage.minimumWeight demand)) = true := by decide +kernel
  obtain ⟨⟨appended, reclaimed⟩, isRun, checked⟩ := exists_of_any evaluated
  simp only [Bool.and_eq_true, decide_eq_true_eq] at checked
  obtain ⟨⟨⟨isConfig, refused⟩, isEmpty⟩, small⟩ := checked
  obtain ⟨reached, frees⟩ := run_eq_some isRun
  have isRefused := Storage.answered_of_answers refused
  refine ⟨appended, reclaimed, reached, isRefused, frees, emptied_of_empties isEmpty, ?_⟩
  exact (@definitive_iff Hasher.fnv appended reached 911 .block (by rw [isConfig]; rfl) [newcomer]
    (.millis 5) demand 928 rfl isRefused).1 small

end

end Camus
