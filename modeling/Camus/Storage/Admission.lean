/-
**Appends that wait for room.**

On a bounded root an append that does not fit now waits for room, or is refused for good if the root
that holds nothing else is already too small for it. The two are decided by two formulas, one of the
root as it stands and one of an emptied root.

* `Storage.Idle` — no record is pending and there is no segment to reclaim.
* `IndexView.Sound.empty_of_idle` — a sound idle root has no segment.
* `admitted_or_exceeds_iff` — on an idle root an append is admitted or refused for good exactly if the
  check does not overflow and the capacity is not in the gap that control files larger than compacted
  ones leave between the two formulas.
-/

import Camus.Storage.Weights

namespace Camus

open Codec Checked Disk FaultIo Result Std

variable {answer : CapacityCheck} {units : List AppendUnit} {segmentId : Nat} {segment : Segment}

/-- No record is pending and there is no segment that an automatic reclamation removes. -/
structure Storage.Idle (storage : Storage) : Prop where
  drained : ∀ streamId, (StreamMap.entry storage.streams streamId).pending = ∅
  noWork : storage.hasAutomaticReclaimWork = .ok false

/-! ### A sound root without work -/

theorem reclaimableCount_pos {segments : SegmentMap} {bound : Nat}
    (found : segments[segmentId]? = some segment) (inside : segmentId < bound)
    (reclaimable : segment.isReclaimable = true) : 0 < reclaimableCount segments bound := by
  refine List.countP_pos_iff.mpr ⟨segmentId, List.mem_range.mpr inside, ?_⟩
  rw [found]
  exact reclaimable

/-- Without pending records every record of every segment is released. -/
theorem IndexView.Sound.unreleased_of_drained {view : IndexView} (sound : view.Sound)
    (drained : ∀ streamId, (view.streams.entry streamId).pending = ∅)
    (found : view.segments[segmentId]? = some segment) : segment.unreleasedRecords = 0 := by
  rw [sound.counted segmentId segment found, Segment.unreleasedCount, List.countP_eq_zero]
  intro record member
  obtain ⟨ordinal, isRecord⟩ := List.mem_iff_getElem?.mp member
  cases released : record.released with
  | true => simp
  | false =>
    have pending := sound.indexes.pending segmentId ordinal record trivial
      ⟨segment, found, isRecord⟩ released
    rw [drained] at pending
    simp at pending

/-- **A sound idle root has no segment.** A segment would be active and drained, or reclaimable. -/
theorem IndexView.Sound.empty_of_idle {storage : Storage} (sound : storage.indexView.Sound)
    (idle : storage.Idle) : storage.segments = ∅ ∧ storage.activeSegment = none := by
  have noWork := idle.noWork
  have drained : ∀ (segmentId : Nat) (segment : Segment),
      storage.segments[segmentId]? = some segment → segment.unreleasedRecords = 0 :=
    fun segmentId segment found => sound.unreleased_of_drained idle.drained found
  unfold Storage.hasAutomaticReclaimWork at noWork
  split at noWork
  · cases noWork
  · rename_i noneReclaimable
    have none : storage.activeSegment = none := by
      cases isActive : storage.activeSegment with
      | none => rfl
      | some active =>
        rw [isActive] at noWork
        simp only [Storage.segmentAt, bind_eq_ok, orError_eq_ok, pure_eq_ok,
          decide_eq_false_iff_not] at noWork
        obtain ⟨segment, found, pending⟩ := noWork
        exact absurd (drained active segment found) pending
    refine ⟨?_, none⟩
    refine ExtTreeMap.ext_getElem? fun segmentId => ?_
    rw [ExtTreeMap.getElem?_empty]
    cases found : storage.segments[segmentId]? with
    | none => rfl
    | some segment =>
      exfalso
      cases footer : segment.footer with
      | none =>
        have isActive := sound.isActive segmentId segment found footer
        have isActive : storage.activeSegment = some segmentId := isActive
        rw [none] at isActive
        cases isActive
      | some value =>
        have reclaimable : segment.isReclaimable = true := by
          simp [Segment.isReclaimable, footer, drained segmentId segment found]
        have positive := reclaimableCount_pos found (sound.identity_of_found found) reclaimable
        have counted : storage.reclaimableSegments =
          reclaimableCount storage.segments storage.nextSegmentId := sound.reclaimable
        have counted' : reclaimableCount storage.segments storage.nextSegmentId = 0 := by
          rw [← counted]
          simpa using noneReclaimable
        have positive : 0 < reclaimableCount storage.segments storage.nextSegmentId := positive
        omega

/-! ### Waiting on an idle root -/

/-- The bytes by which the files of a root exceed compacted control files. -/
def Storage.excessBytes (storage : Storage) (demand : GroupDemand) : Nat :=
  storage.actualFileBytes - storage.compactedBytes demand

theorem weightOf_of_empty {storage : Storage} (noSegments : storage.segments = ∅)
    (noActive : storage.activeSegment = none) (demand : GroupDemand) :
    storage.weightOf demand none = storage.actualFileBytes + storage.groupWeight demand := by
  have nothing : storage.segments.toList = [] := by
    rw [noSegments]
    rfl
  simp only [Storage.weightOf, Storage.filesAfter, Storage.projectedLoads, reserveOf, noActive, nothing,
    Option.isNone_none, if_true, Option.isSome_none, Bool.false_and, Bool.false_eq_true, if_false,
    List.map_nil, List.nil_append, entriesOf_cons, entriesOf_nil, largestOf_cons, largestOf_nil,
    Nat.max_zero, Storage.groupWeight]
  omega

/-- **When an idle root does not let an append wait.** In every state of a bounded root without
pending records and without automatic reclamation work, a group of appends is admitted or refused for
good, exactly if nothing overflows in the check and the capacity is not in the gap between the weight
of the emptied root and the weight of the root as it stands, which is as wide as the control files
exceed compacted ones. -/
theorem admitted_or_exceeds_iff [Hasher] {world : World} (reached : Reached world)
    (idle : world.storage.Idle) {totalBytes : Nat} {whenFull : FullPolicy}
    (bounded : world.storage.config.capacity = .bounded totalBytes whenFull)
    (units : List AppendUnit) (clock : Clock) :
    (world.storage.checkAppendCapacity units clock = .ok .admitted ∨
      ∃ needed, world.storage.checkAppendCapacity units clock = .ok (.exceeds needed totalBytes)) ↔
      ∃ demand, tryFold GroupDemand.add ⟨∅, 0, 0⟩ units = .ok demand ∧
        world.storage.Computes totalBytes demand none ∧
        ¬ (world.storage.minimumWeight demand ≤ totalBytes ∧
          totalBytes < world.storage.minimumWeight demand + world.storage.excessBytes demand) := by
  obtain ⟨noSegments, noActive⟩ := (sound_reached reached).empty_of_idle idle
  have answers : ∀ demand answer, tryFold GroupDemand.add ⟨∅, 0, 0⟩ units = .ok demand →
      (world.storage.checkAppendCapacity units clock = .ok answer ↔
        world.storage.Computes totalBytes demand none ∧
          answer = world.storage.verdict totalBytes demand none) := by
    intro demand answer isDemand
    have isFits : world.storage.activeFits demand clock = .ok false := by
      simp [Storage.activeFits, noActive]
    exact Storage.checkAppendCapacity_eq_ok bounded (accounted_reached reached) isDemand isFits
  have weight := weightOf_of_empty noSegments noActive
  -- the two weights differ by what the files exceed compacted ones
  have minimum : ∀ demand, world.storage.minimumWeight demand =
    world.storage.compactedBytes demand + world.storage.groupWeight demand := fun _ => rfl
  have excess : ∀ demand, world.storage.excessBytes demand =
    world.storage.actualFileBytes - world.storage.compactedBytes demand := fun _ => rfl
  constructor
  · intro answered
    obtain ⟨answer, isAnswer, noWait⟩ : ∃ answer,
        world.storage.checkAppendCapacity units clock = .ok answer ∧
          ∀ needed available, answer ≠ .wait needed available := by
      rcases answered with isAdmitted | ⟨needed, isExceeds⟩
      · exact ⟨_, isAdmitted, nofun⟩
      · exact ⟨_, isExceeds, nofun⟩
    obtain ⟨demand, -, isDemand, -⟩ := Storage.counts_of_answered bounded isAnswer
    obtain ⟨computes, rfl⟩ := (answers demand answer isDemand).mp isAnswer
    refine ⟨demand, isDemand, computes, fun gap => noWait _ _ ((if_neg ?_).trans (if_neg ?_))⟩
    · have := weight demand
      have := minimum demand
      have := excess demand
      omega
    · omega
  · rintro ⟨demand, isDemand, computes, noGap⟩
    have isAnswer := (answers demand _ isDemand).mpr ⟨computes, rfl⟩
    unfold Storage.verdict at isAnswer
    split at isAnswer
    · exact .inl isAnswer
    · split at isAnswer
      · exact .inr ⟨_, isAnswer⟩
      · exfalso
        have := weight demand
        have := minimum demand
        have := excess demand
        omega

/-! ### A root that waits forever

A bounded root takes one record, which is released. The reclamation of its segment is interrupted
after the file was removed and before the manifest is compacted. -/

/-- The pending maps are empty and there is nothing to reclaim. -/
def Storage.idles (storage : Storage) : Bool :=
  (Maps.values storage.streams).all (fun stream => stream.pending.isEmpty) &&
    match storage.hasAutomaticReclaimWork with
    | .ok work => !work
    | .error _ => false

theorem Storage.idle_of_idles {storage : Storage} (idles : storage.idles = true) : storage.Idle := by
  simp only [Storage.idles, Bool.and_eq_true, List.all_eq_true] at idles
  obtain ⟨drained, noWork⟩ := idles
  refine ⟨fun streamId => ?_, ?_⟩
  · cases found : storage.streams[streamId]? with
    | none =>
      rw [StreamMap.entry, found]
      rfl
    | some stream =>
      have isEmpty := drained stream (Maps.mem_values.mpr ⟨streamId, found⟩)
      rw [StreamMap.entry, found]
      exact ExtTreeMap.isEmpty_iff.mp isEmpty
  · split at noWork
    · rename_i work isWork
      rw [isWork]
      cases work with
      | false => rfl
      | true => cases noWork
    · cases noWork

/-- Everything visible survives. -/
def Fs.settled (fs : Fs) : Fs where
  nodes := fs.nodes.map fun node => ⟨node.data, []⟩
  root := fs.root.sync
  segments := if fs.root.entries.contains .segments then fs.segments.sync else .empty

theorem Fs.crash_settled (fs : Fs) : fs.Crash fs.settled := by
  refine ⟨fs.nodes.map FileNode.data, fs.root.entries, ?_, fs.root.maySurvive_entries, ?_, ?_, rfl⟩
  · rw [List.forall₂_map_right_iff]
    exact List.forall₂_same.mpr fun node _ => node.maySurvive_data
  · unfold CrashedSegments
    split
    · rename_i held
      exact ⟨fs.segments.entries, fs.segments.maySurvive_entries, if_pos held⟩
    · rename_i absent
      exact if_neg absent
  · rw [List.map_map]
    rfl

/-- A root gives an answer to a group, at the time the samples use. -/
def Storage.answers (storage : Storage) (units : List AppendUnit) (answer : CapacityCheck) : Bool :=
  match storage.checkAppendCapacity units (.millis 5) with
  | .ok found => found = answer
  | .error _ => false

theorem Storage.answered_of_answers {storage : Storage}
    (isAnswer : storage.answers units answer = true) :
    storage.checkAppendCapacity units (.millis 5) = .ok answer := by
  unfold answers at isAnswer
  split at isAnswer
  · rename_i found isFound
    rw [isFound, of_decide_eq_true isAnswer]
  · cases isAnswer

namespace AdmissionSample

def config : Config := { Config.sample with capacity := .bounded 1000 .block }

/-- The states after the open, the append, the release, the interrupted reclamation and the second
open. -/
def run : Option (World × World × World × World × World) := do
  let opened ← Sample.opens config .fresh
  let appended ← Sample.operate opened (Sample.append [Sample.unit 1])
  let released ← Sample.operate appended (Sample.release 1 0)
  let stopped ← (@reclaim Hasher.fnv .automatic).stopping released
    (List.replicate 10 .proceed ++ [.crash 0])
  let reopened ← Sample.opens config stopped.fs.settled
  return (opened, appended, released, stopped, reopened)

end AdmissionSample

section

open AdmissionSample

/-- **A bounded root may wait forever**: after the interrupted reclamation nothing is pending and
nothing is left to reclaim, and the append that the empty root admitted waits. -/
theorem waits_without_work : ∃ opened appended released stopped reopened : World,
    Returns (@Storage.open Hasher.fnv config .sample .sorted) .fresh opened.storage opened.fs ∧
    opened.storage.checkAppendCapacity [Sample.unit 1] (.millis 5) = .ok .admitted ∧
    @Operation.Returns Hasher.fnv (Sample.append [Sample.unit 1]) opened appended ∧
    @Operation.Returns Hasher.fnv (Sample.release 1 0) appended released ∧
    Stops (@reclaim Hasher.fnv .automatic) released stopped ∧
    stopped.fs.Crash stopped.fs.settled ∧
    Returns (@Storage.open Hasher.fnv config .sample .sorted) stopped.fs.settled reopened.storage
      reopened.fs ∧
    reopened.storage.Idle ∧
    reopened.storage.checkAppendCapacity [Sample.unit 1] (.millis 5) = .ok (.wait 368 240) := by
  have evaluated : AdmissionSample.run.any (fun (opened, _, _, _, reopened) =>
      opened.storage.answers [Sample.unit 1] .admitted && reopened.storage.idles &&
        reopened.storage.answers [Sample.unit 1] (.wait 368 240)) = true := by decide +kernel
  obtain ⟨⟨opened, appended, released, stopped, reopened⟩, isRun, checked⟩ :=
    exists_of_any evaluated
  simp only [Bool.and_eq_true] at checked
  obtain ⟨⟨first, idles⟩, last⟩ := checked
  simp only [AdmissionSample.run, Option.bind_eq_bind, Option.bind_eq_some_iff, Option.pure_def,
    Option.some.injEq, Prod.mk.injEq] at isRun
  obtain ⟨_, isOpened, _, appends, _, releases, _, stops, _, isReopened, rfl, rfl, rfl, rfl, rfl⟩ :=
    isRun
  exact ⟨_, _, _, _, _, Sample.returns_of_opens isOpened, Storage.answered_of_answers first,
    Sample.returns_of_operate appends, Sample.returns_of_operate releases, stops_of_stopping stops,
    Fs.crash_settled _, Sample.returns_of_opens isReopened, Storage.idle_of_idles idles,
    Storage.answered_of_answers last⟩

/-- After one record was appended, released and reclaimed, the root knows its stream and is idle; it
admits the next record. -/
theorem admitted_or_exceeds_iff_sample : ∃ (world : World) (demand : GroupDemand),
    @Reached Hasher.fnv world ∧ world.storage.Idle ∧ world.storage.streams.size = 1 ∧
    world.storage.checkAppendCapacity [Sample.unit 1] (.millis 5) = .ok .admitted ∧
    world.storage.Computes 1000 demand none ∧
    ¬ (world.storage.minimumWeight demand ≤ 1000 ∧
      1000 < world.storage.minimumWeight demand + world.storage.excessBytes demand) := by
  have evaluated : (Sample.run config
      [Sample.append [Sample.unit 1], Sample.release 1 0, .reclaim .automatic]).any (fun world =>
        world.storage.idles && decide (world.storage.streams.size = 1) &&
          world.storage.answers [Sample.unit 1] .admitted &&
          decide (world.storage.config = config)) = true := by
    decide +kernel
  obtain ⟨world, isRun, checked⟩ := exists_of_any evaluated
  simp only [Bool.and_eq_true, decide_eq_true_eq] at checked
  obtain ⟨⟨⟨idles, known⟩, admitted⟩, isConfig⟩ := checked
  have reached := Sample.reached_of_run isRun
  have idle := Storage.idle_of_idles idles
  have answered := Storage.answered_of_answers admitted
  obtain ⟨demand, -, computes, noGap⟩ := (@admitted_or_exceeds_iff Hasher.fnv world reached idle 1000
    .block (by rw [isConfig]; rfl) [Sample.unit 1] (.millis 5)).mp (.inl answered)
  exact ⟨world, demand, reached, idle, known, answered, computes, noGap⟩

end

end Camus
