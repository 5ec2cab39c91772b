/-
**The errors of the parts of an operation.**

Once an operation has begun to write, its parts return errors of the disk and of what is on it
(`Error.isFault`), a panic, and little else:

* `raises_sealSegment` — sealing can run out of manifest sequences.
* `raises_writeGroup` — writing a group can run out of segment identities, or find no clock.
* `large_of_errs` — an append returns the error of a group that is too large for a segment
  only if the group is too large.
-/

import Camus.Lib.Failure
import Camus.Storage.Projection

set_option linter.unusedSectionVars false

namespace Camus

open Codec Checked Disk FaultIo Result

variable {prepared : List PreparedEpoch}

/-- An error of the disk or of what is on it. -/
def Error.isFault : Error → Bool
  | io _ _ _ | corruption _ _ _ => true
  | _ => false

section

variable [Hasher]

/-! ### Programs on the disk -/

section

variable {kind : Error → Prop} (faults : ∀ reason : Error, reason.isFault = true → kind reason)

include faults

theorem corruption_kind (path : Artifact) (offset : Nat) (message : String) :
    kind (.corruption path offset message) := faults _ rfl

theorem raises_sealData (segment : Segment) : Raises segment.sealData kind := by
  unfold Segment.sealData
  split
  · exact raises_result
  · refine raises_bind (raises_ofExcept ?_) fun footer => ?_
    · refine errors_bind (errors_orError fun _ => faults _ rfl) fun _ _ => ?_
      exact errors_bind (errors_orError fun _ => faults _ rfl) fun _ _ =>
        errors_pure _
    · refine raises_bind (raises_ofExcept (malformed_errors kind (corruption_kind faults) _ _ _)) fun _ => ?_
      refine raises_bind (raises_observe (faults _ rfl)) fun _ => ?_
      refine raises_bind (raises_step (faults _ rfl)) fun _ => ?_
      exact raises_bind (raises_step (faults _ rfl)) fun _ => raises_result

theorem raises_writeEpochGroup (inode : Nat) (path : Artifact) (start : Nat)
    (epochs : List PreparedEpoch) : Raises (writeEpochGroup inode path start epochs) kind := by
  unfold writeEpochGroup
  split
  · exact raises_result
  · refine raises_bind
      (raises_ofExcept (prepareGroup_errors kind (corruption_kind faults) _ _ _)) fun _ => ?_
    exact raises_bind (raises_step (faults _ rfl)) fun _ => raises_result

theorem raises_append (segment : Segment) (rootId : RootId) (epochs : List PreparedEpoch)
    (newStreams : Nat) : Raises (segment.append rootId epochs newStreams) kind := by
  unfold Segment.append
  refine raises_bind (raises_ofOption (faults _ rfl)) fun _ => ?_
  refine raises_bind (raises_require (faults _ rfl)) fun _ => ?_
  refine raises_bind (raises_observe (faults _ rfl)) fun _ => ?_
  refine raises_bind (raises_writeEpochGroup faults _ _ _ _) fun _ => ?_
  refine raises_bind (raises_step (faults _ rfl)) fun _ => ?_
  refine raises_bind
    (raises_ofExcept (addUnreleased_errors kind (corruption_kind faults) _ _ _ _)) fun _ => ?_
  exact raises_bind
    (raises_ofExcept (addBoundary_errors kind (corruption_kind faults) _ _ _ _)) fun _ => raises_result

theorem raises_create {epochs : List PreparedEpoch} (nonempty : epochs ≠ []) (rootId : RootId)
    (segmentId createdAt : Nat) : Raises (Segment.create rootId segmentId createdAt epochs) kind := by
  unfold Segment.create
  refine raises_bind (fun _ _ _ erred => ?_) fun _ => ?_
  · have refused := erred.require.1
    simp [nonempty] at refused
  refine raises_bind (raises_ofExcept (malformed_errors kind (corruption_kind faults) _ _ _)) fun _ => ?_
  refine raises_bind ?_ fun _ => ?_
  · refine raises_bind raises_read fun _ => ?_
    refine raises_bind (raises_require (faults _ rfl)) fun _ => ?_
    exact raises_bind (raises_step (faults _ rfl)) fun _ => raises_result
  refine raises_bind (raises_step (faults _ rfl)) fun _ => ?_
  refine raises_bind (raises_writeEpochGroup faults _ _ _ _) fun _ => ?_
  refine raises_bind
    (raises_ofExcept (addBoundary_errors kind (corruption_kind faults) _ _ _ _)) fun _ => ?_
  refine raises_bind (raises_step (faults _ rfl)) fun _ => ?_
  refine raises_bind ?_ fun _ => ?_
  · refine raises_bind raises_read fun _ => ?_
    exact raises_bind (raises_ofOption (faults _ rfl)) fun _ => raises_step (faults _ rfl)
  refine raises_bind (raises_step (faults _ rfl)) fun _ => ?_
  exact raises_bind (raises_ofOption (faults _ rfl)) fun _ => raises_result

theorem encodeFrames_errors (exhausted : kind .manifestSequenceExhausted) (next : Nat)
    (bodies : List ManifestBody) : Result.Errors kind (encodeFrames next bodies) := by
  fun_induction encodeFrames next bodies with
  | case1 => exact errors_ok _
  | case2 =>
    exact errors_bind (malformed_errors kind (corruption_kind faults) _ _ _) fun _ _ =>
      errors_pure _
  | case3 next body more rest ih =>
    refine errors_bind (malformed_errors kind (corruption_kind faults) _ _ _) fun _ _ => ?_
    refine errors_bind (errors_orError fun _ => exhausted) fun following _ => ?_
    exact errors_bind (ih following) fun _ _ => errors_pure _

theorem raises_manifest_appendGroup (exhausted : kind .manifestSequenceExhausted) (manifest : Manifest)
    (bodies : List ManifestBody) (outcome : DurabilityOutcome) :
    Raises (manifest.appendGroup bodies outcome) kind := by
  unfold Manifest.appendGroup
  split
  · exact raises_result
  · refine raises_bind (raises_ofOption exhausted) fun _ => ?_
    refine raises_bind (raises_ofExcept (encodeFrames_errors faults exhausted _ _)) fun _ => ?_
    refine raises_bind (raises_ofExcept (errors_tryFold fun _ _ _ => ?_)) fun _ => ?_
    · exact errors_bind (errors_orError fun _ => faults _ rfl) fun _ _ =>
        errors_orError fun _ => faults _ rfl
    refine raises_bind (raises_ofOption (faults _ rfl)) fun _ => ?_
    refine raises_bind (raises_observe (faults _ rfl)) fun _ => ?_
    refine raises_bind (raises_step (faults _ rfl)) fun _ => ?_
    exact raises_bind (raises_step (faults _ rfl)) fun _ => raises_result

/-! ### Programs on an open root -/

variable (panics : ∀ message, kind (.panicked message))

include panics

theorem segmentAt_errors (storage : Storage) (segmentId : Nat) :
    Result.Errors kind (storage.segmentAt segmentId) := errors_orError fun _ => panics _

omit faults panics in
theorem raises_getStorage : Raises getStorage kind := raises_bind raises_read fun _ => raises_result

omit faults panics in
theorem raises_tryStorage {change : Storage → Except Error Storage}
    (errors : ∀ storage, Result.Errors kind (change storage)) : Raises (tryStorage change) kind :=
  raises_bind raises_getStorage fun storage =>
    raises_bind (raises_ofExcept (errors storage)) fun _ => raises_update

omit panics in
theorem replaceActualFileBytes_errors (previous current : Nat) (storage : Storage) :
    Result.Errors kind (storage.replaceActualFileBytes previous current) :=
  errors_bind (errors_orError fun _ => faults _ rfl) fun _ _ => errors_pure _

omit panics in
theorem raises_appendManifestGroup (exhausted : kind .manifestSequenceExhausted)
    (bodies : List ManifestBody) (outcome : DurabilityOutcome) :
    Raises (appendManifestGroup bodies outcome) kind := by
  refine raises_bind raises_getStorage fun storage => ?_
  refine raises_bind (raises_ofExcept (errors_orError fun _ => faults _ rfl)) fun _ => ?_
  refine raises_bind (raises_focus (raises_manifest_appendGroup faults exhausted _ _ _)) fun _ => ?_
  refine raises_bind raises_update fun _ => ?_
  refine raises_bind (raises_ofExcept (errors_orError fun _ => faults _ rfl)) fun _ => ?_
  exact raises_tryStorage fun _ => replaceActualFileBytes_errors faults _ _ _

/-- **Sealing** can run out of manifest sequences. -/
theorem raises_sealSegment (exhausted : kind .manifestSequenceExhausted) (segmentId : Nat)
    (reason : SealReason) : Raises (sealSegment segmentId reason) kind := by
  refine raises_bind raises_getStorage fun storage => ?_
  refine raises_bind (raises_ofExcept (segmentAt_errors faults panics _ _)) fun _ => ?_
  refine raises_bind (raises_focus (raises_sealData faults _)) fun _ => ?_
  refine raises_bind raises_update fun _ => ?_
  refine raises_bind (raises_tryStorage fun _ => replaceActualFileBytes_errors faults _ _ _) fun _ => ?_
  exact raises_bind (raises_appendManifestGroup faults exhausted _ _) fun _ => raises_update

theorem raises_sealActive (exhausted : kind .manifestSequenceExhausted) (reason : SealReason) :
    Raises (sealActive reason) kind := by
  refine raises_bind raises_getStorage fun storage => ?_
  split
  · exact raises_result
  · exact raises_sealSegment faults panics exhausted _ _

theorem raises_rollOver (exhausted : kind .manifestSequenceExhausted) {expiry : Clock}
    (clock : ∀ storage : Storage, Result.Errors kind (storage.activeExpired expiry)) (groupBytes : Nat) :
    Raises (rollOver groupBytes expiry) kind := by
  refine raises_bind raises_getStorage fun storage => ?_
  split
  · exact raises_result
  · refine raises_bind (raises_ofExcept (clock storage)) fun expired => ?_
    split
    · exact raises_sealActive faults panics exhausted _
    · refine raises_bind (raises_ofExcept (errors_bind (segmentAt_errors faults panics _ _)
        fun _ _ => errors_pure _)) fun _ => ?_
      split
      · exact raises_sealActive faults panics exhausted _
      · exact raises_result

theorem indexDurableRecords_errors (segmentId first : Nat) (storage : Storage) :
    Result.Errors kind (storage.indexDurableRecords segmentId first) := by
  refine errors_bind (segmentAt_errors faults panics _ _) fun segment _ => ?_
  refine errors_tryFold fun _ _ _ => ?_
  refine errors_bind (errors_ensure fun _ => faults _ rfl) fun _ _ => ?_
  refine errors_bind (errors_orError fun _ => faults _ rfl) fun _ _ => ?_
  exact errors_bind (errors_orError fun _ => faults _ rfl) fun _ _ => errors_pure _

theorem raises_appendToActive (active : Nat) (prepared : List PreparedEpoch) :
    Raises (appendToActive active prepared) kind := by
  refine raises_bind raises_getStorage fun storage => ?_
  refine raises_bind (raises_ofExcept (segmentAt_errors faults panics _ _)) fun _ => ?_
  refine raises_bind (raises_focus (raises_append faults _ _ _ _)) fun _ => ?_
  refine raises_bind raises_update fun _ => ?_
  refine raises_bind (raises_tryStorage fun _ => indexDurableRecords_errors faults panics _ _ _) fun _ => ?_
  exact raises_bind (raises_tryStorage fun _ => replaceActualFileBytes_errors faults _ _ _) fun _ =>
    raises_result

/-- **Writing to a new segment** can run out of segment identities, or find no clock. -/
theorem raises_appendToNew (identities : kind .segmentIdExhausted) {creation : Clock}
    (clock : Result.Errors kind (unixMillis creation)) (nonempty : prepared ≠ []) :
    Raises (appendToNew prepared creation) kind := by
  refine raises_bind ?_ fun segmentId => ?_
  · refine raises_bind raises_getStorage fun storage => ?_
    refine raises_bind (raises_require identities) fun _ => ?_
    exact raises_bind raises_update fun _ => raises_result
  refine raises_bind (raises_ofExcept clock) fun _ => ?_
  refine raises_bind raises_getStorage fun storage => ?_
  refine raises_bind (raises_focus (raises_create faults nonempty _ _ _)) fun _ => ?_
  refine raises_bind raises_update fun _ => ?_
  refine raises_bind (raises_tryStorage fun _ => indexDurableRecords_errors faults panics _ _ _) fun _ => ?_
  exact raises_bind (raises_tryStorage fun _ => replaceActualFileBytes_errors faults _ _ _) fun _ =>
    raises_result

theorem raises_writeGroup (identities : kind .segmentIdExhausted) {creation : Clock}
    (clock : Result.Errors kind (unixMillis creation)) (nonempty : prepared ≠ []) :
    Raises (writeGroup prepared creation) kind := by
  refine raises_bind raises_getStorage fun storage => ?_
  split
  · exact raises_appendToActive faults panics _ _
  · exact raises_appendToNew faults panics identities clock nonempty

end

/-! ### Appends -/

theorem Errs.bind_getStorage {β : Type} {program : Storage → StorageIo β} {world final : World}
    {reason : Error} (erred : Errs (getStorage >>= program) world reason final) :
    Errs (program world.storage) world reason final := by
  rcases Errs.bind erred with first | ⟨storage, middle, got, later⟩
  · exact (@raises_getStorage _ (fun _ => False) _ _ _ first).elim
  · obtain ⟨rfl, rfl⟩ := got.bind_read.pure
    exact later

/-- The error of a group that is too large for a segment. -/
def largeGroup : Error :=
  .runtime "reactor selected an append commit group larger than one segment"

/-- **What an append does before it changes anything**: it encodes and counts the epochs of a group that
fits a segment. -/
def Storage.encodeGroup (storage : Storage) (units : List AppendUnit) :
    Except Error (List PreparedEpoch × Nat) := do
  let _ ← orError (.invalidConfig "append unit count does not fit u64") (toWord units.length)
  let _ ← tryFold addUnitRecords 0 units
  let prepared ← storage.prepareUnits units
  let groupBytes ← tryFold addEpochBytes 0 prepared
  let freshCapacity ← orError (.panicked "configuration validated segment bounds")
    (checkedSub storage.config.segmentBytes (segmentHeaderLen + segmentFooterLen))
  ensure (groupBytes ≤ freshCapacity) largeGroup
  return (prepared, groupBytes)

variable {world final : World} {units : List AppendUnit} {expiry creation : Clock} {reason : Error}

/-- **Where an append stops with an error.** -/
theorem errs_appendGroup (nonempty : units ≠ [])
    (erred : Errs (appendGroup units expiry creation) world reason final) :
    (world.storage.encodeGroup units = .error reason ∧ final = world) ∨
      ∃ prepared groupBytes, world.storage.encodeGroup units = .ok (prepared, groupBytes) ∧
        (Errs (rollOver groupBytes expiry) world reason final ∨
          ∃ rolled, Returns (rollOver groupBytes expiry) world () rolled ∧
            Errs (writeGroup prepared creation) rolled reason final) := by
  unfold appendGroup at erred
  rw [if_neg nonempty] at erred
  unfold Storage.encodeGroup
  rcases (Errs.bind_getStorage erred).bind_ofOption with ⟨stopped, rfl, rfl⟩ | ⟨_, counted, erred⟩
  · exact .inl ⟨by rw [stopped]; rfl, rfl⟩
  simp only [counted, orError, ok_bind]
  rcases erred.bind_ofExcept with ⟨stopped, rfl⟩ | ⟨_, records, erred⟩
  · exact .inl ⟨by rw [stopped]; rfl, rfl⟩
  simp only [records, ok_bind]
  rcases erred.bind_ofExcept with ⟨stopped, rfl⟩ | ⟨prepared, isPrepared, erred⟩
  · exact .inl ⟨by rw [stopped]; rfl, rfl⟩
  simp only [isPrepared, ok_bind]
  rcases erred.bind_ofExcept with ⟨stopped, rfl⟩ | ⟨groupBytes, isBytes, erred⟩
  · exact .inl ⟨by rw [stopped]; rfl, rfl⟩
  simp only [isBytes, ok_bind]
  rcases erred.bind_ofOption with ⟨stopped, rfl, rfl⟩ | ⟨fresh, isFresh, erred⟩
  · exact .inl ⟨by rw [stopped]; rfl, rfl⟩
  simp only [isFresh, ok_bind]
  rcases erred.bind_require with ⟨stopped, rfl, rfl⟩ | ⟨fits, erred⟩
  · exact .inl ⟨by rw [stopped]; rfl, rfl⟩
  refine .inr ⟨prepared, groupBytes, by rw [fits]; rfl, ?_⟩
  rcases erred.bind with rolls | ⟨_, rolled, rolls, erred⟩
  · exact .inl rolls
  rcases erred.bind with writes | ⟨_, written, writes, erred⟩
  · exact .inr ⟨rolled, rolls, writes⟩
  · exact (erred.bind_update.result).elim

/-- An epoch is refused when it is empty, runs out of sequences or overflows. -/
theorem PreparedEpoch.new_errors {kind : Error → Prop} {streamId : StreamId} (empty : kind .emptyAppend)
    (exhausted : kind (.sequenceExhausted streamId)) (invalid : ∀ message, kind (.invalidConfig message))
    (firstSequence : Nat) (records : List Record) :
    Result.Errors kind (PreparedEpoch.new streamId firstSequence records) := by
  unfold PreparedEpoch.new
  refine errors_bind (errors_ensure fun _ => empty) fun _ _ => ?_
  refine errors_bind (errors_orError fun _ => invalid _) fun _ _ => ?_
  refine errors_bind (errors_orError fun _ => exhausted) fun _ _ => ?_
  refine errors_bind (errors_tryFold fun _ _ _ => ?_) fun _ _ => ?_
  · refine errors_bind (errors_mapError invalid) fun _ _ => ?_
    refine errors_bind (errors_mapError invalid) fun _ _ => ?_
    exact errors_bind (errors_orError fun _ => invalid _) fun _ _ => errors_pure _
  refine errors_bind (errors_mapError invalid) fun _ _ => ?_
  exact errors_bind (errors_orError fun _ => invalid _) fun _ _ => errors_pure _

/-- **Encoding a unit fails for reasons of the unit**: it is too large only if its epoch is. -/
theorem prepareUnit_errors {kind : Error → Prop} {unit : AppendUnit} {maxEpochBytes : Nat}
    (empty : kind .emptyAppend) (exhausted : kind (.sequenceExhausted unit.streamId))
    (invalid : ∀ message, kind (.invalidConfig message))
    (large : ∀ bytes, encodedEpochBytes unit.records = .ok bytes → maxEpochBytes < bytes →
      kind (.epochTooLarge bytes maxEpochBytes))
    (prepared : Std.ExtTreeMap StreamId (Option Nat) × List PreparedEpoch) :
    Result.Errors kind (prepareUnit maxEpochBytes prepared unit) := by
  unfold prepareUnit
  refine errors_bind ?_ fun firstSequence _ => ?_
  · unfold nextSequence
    split
    · exact errors_orError fun _ => exhausted
    · exact errors_ok _
  refine errors_bind (PreparedEpoch.new_errors empty exhausted invalid _ _) fun epoch isEpoch => ?_
  refine errors_bind (errors_ensure fun exceeds => ?_) fun _ _ => ?_
  · exact large _ (encodedEpochBytes_of_new isEpoch) (Nat.lt_of_not_le (of_decide_eq_false exceeds))
  refine errors_bind (errors_orError fun _ => invalid _) fun _ _ => ?_
  exact errors_bind (errors_orError fun _ => exhausted) fun _ _ => errors_pure _

/-- The error of a large group comes of a large group. -/
theorem large_of_encodeGroup {storage : Storage} (stopped : storage.encodeGroup units = .error largeGroup) :
    ∃ prepared groupBytes, storage.prepareUnits units = .ok prepared ∧
      tryFold addEpochBytes 0 prepared = .ok groupBytes ∧
        storage.config.segmentBytes < groupBytes + (segmentHeaderLen + segmentFooterLen) := by
  have general : Result.Errors (fun reason => reason = largeGroup → ∃ prepared groupBytes,
      storage.prepareUnits units = .ok prepared ∧
        tryFold addEpochBytes 0 prepared = .ok groupBytes ∧
          storage.config.segmentBytes < groupBytes + (segmentHeaderLen + segmentFooterLen))
      (storage.encodeGroup units) := by
    unfold Storage.encodeGroup
    refine errors_bind (errors_orError fun _ => nofun) fun _ _ => ?_
    refine errors_bind (errors_tryFold fun _ _ _ => ?_) fun _ _ => ?_
    · exact errors_bind (errors_orError fun _ => nofun) fun _ _ =>
        errors_orError fun _ => nofun
    refine errors_bind ?_ fun prepared isPrepared => ?_
    · refine errors_bind (errors_tryFold fun _ _ _ => ?_) fun _ _ => errors_pure _
      exact prepareUnit_errors nofun nofun (fun _ => nofun) (fun _ _ _ => nofun) _
    refine errors_bind (errors_tryFold fun _ _ _ => errors_orError fun _ => nofun)
      fun groupBytes isBytes => ?_
    refine errors_bind (errors_orError fun _ => nofun) fun fresh isFresh => ?_
    refine errors_bind (errors_ensure fun large _ => ?_) fun _ _ => errors_pure _
    refine ⟨prepared, groupBytes, isPrepared, isBytes, ?_⟩
    have room := checkedSub_eq_some.mp (orError_eq_ok.mp isFresh)
    have less := of_decide_eq_false large
    omega
  exact general _ stopped rfl

/-- An error about the size of a group, or of an epoch in it. -/
def Error.ofSize : Error → Bool
  | epochTooLarge _ _ => true
  | reason => reason = largeGroup

/-- **An append returns an error about sizes** before it changes anything. -/
theorem encodeGroup_of_errs (nonempty : units ≠ []) (sized : reason.ofSize = true)
    (erred : Errs (appendGroup units expiry creation) world reason final) :
    world.storage.encodeGroup units = .error reason := by
  have faults : ∀ reason : Error, reason.isFault = true → reason.ofSize = false := by
    rintro (_ | _) fault <;> first | rfl | cases fault
  have panics : ∀ message, (Error.panicked message).ofSize = false := fun _ => rfl
  have clocks : ∀ clock : Clock, Result.Errors (·.ofSize = false) (unixMillis clock) := by
    rintro (_ | sinceEpoch)
    · exact errors_error (by decide)
    · exact errors_orError fun _ => by decide
  rcases errs_appendGroup nonempty erred with ⟨stopped, -⟩ | ⟨prepared, groupBytes, encoded, later⟩
  · exact stopped
  · exfalso
    refine Bool.eq_false_iff.mp ?_ sized
    rcases later with rolls | ⟨rolled, -, writes⟩
    · refine raises_rollOver faults panics rfl (fun storage => ?_) _ _ _ _ rolls
      unfold Storage.activeExpired
      split
      · refine errors_bind (clocks _) fun _ _ => ?_
        refine errors_bind (errors_orError fun _ => rfl) fun _ _ => ?_
        exact errors_bind (segmentAt_errors faults panics _ _) fun _ _ => errors_pure _
      · exact errors_ok _
    · refine raises_writeGroup faults panics rfl (clocks _) ?_ _ _ _ writes
      simp only [Storage.encodeGroup, bind_eq_ok, pure_eq_ok, Prod.mk.injEq] at encoded
      obtain ⟨_, -, _, -, _, isPrepared, _, -, _, -, _, -, rfl, -⟩ := encoded
      obtain ⟨epochs, rfl, -, rfl, -⟩ := prepareUnits_eq_ok isPrepared
      simpa using nonempty

/-- **An append returns the error of a large group** only for a group that is too large. -/
theorem large_of_errs (nonempty : units ≠ [])
    (erred : Errs (appendGroup units expiry creation) world largeGroup final) :
    world.storage.config.segmentBytes < groupLength units + (segmentHeaderLen + segmentFooterLen) := by
  have stopped := encodeGroup_of_errs nonempty (by decide) erred
  obtain ⟨prepared, groupBytes, isPrepared, isBytes, large⟩ := large_of_encodeGroup stopped
  obtain ⟨epochs, rfl, -, rfl, -⟩ := prepareUnits_eq_ok isPrepared
  have total := addEpochBytes_total isBytes
  rw [List.map_map, Nat.zero_add] at total
  have length : groupLength (epochs.map Epoch.unit) = groupBytes := by
    rw [groupLength_epochs, total]
    rfl
  omega

end

end Camus
