/-
**The sizes of an epoch.**

The size of an epoch is computed three times: when a client asks for its admission
(`encodedEpochBytes`), when the writer encodes it and decides on a segment (`PreparedEpoch.new`), and
when it is placed in its segment (`prepareEpochWrite`). Each computation sums checked words in an order
of its own.

* `EpochSizesAgree` — the three sizes are the same, and the first two computations fail together.
* `tooLarge_of_errs` — an append rejects an epoch as too large only if it is too large for admission.
-/

import Camus.Storage.Errors

namespace Camus

open Codec Checked Disk FaultIo Result

variable {streamId : StreamId} {firstSequence : Nat} {records : List Record}

/-- The size of an epoch is a word. -/
theorem encodedEpochBytes_fails_iff (nonempty : records ≠ []) :
    (∃ reason, encodedEpochBytes records = .error reason) ↔
      wordMax < epochHeaderLen + recordsLength records + epochCommitLen := by
  simp only [exists_error_iff, ne_eq, encodedEpochBytes_eq_ok, not_and]
  constructor
  · intro never
    by_contra short
    exact never _ nonempty (by omega) rfl
  · rintro large bytes - short rfl
    omega

section

variable [Hasher]

/-- The writer refuses an epoch that is not admitted, and one that runs out of sequences. -/
theorem PreparedEpoch.new_fails_iff (nonempty : records ≠ []) :
    (∃ reason, PreparedEpoch.new streamId firstSequence records = .error reason) ↔
      (∃ reason, encodedEpochBytes records = .error reason) ∨
        wordMax < firstSequence + (records.length - 1) := by
  rw [encodedEpochBytes_fails_iff nonempty]
  simp only [exists_error_iff, ne_eq, PreparedEpoch.new_eq_ok, not_and]
  constructor
  · intro never
    by_contra short
    obtain ⟨sized, interval⟩ := not_or.mp short
    exact never _ ⟨nonempty, Nat.le_of_not_lt interval, Nat.le_of_not_lt sized⟩ rfl
  · rintro (large | exhausted) prepared valid
    · exact absurd valid.sized (Nat.not_le.mpr large)
    · exact absurd valid.interval (Nat.not_le.mpr exhausted)

/-- **An append rejects an epoch as too large** only if the epoch is too large for admission. -/
theorem tooLarge_of_errs {world final : World} {units : List AppendUnit} {expiry creation : Clock}
    {bytes limit : Nat}
    (erred : Errs (appendGroup units expiry creation) world (.epochTooLarge bytes limit) final) :
    ∃ unit ∈ units, encodedEpochBytes unit.records = .ok bytes ∧
      world.storage.config.maxEpochBytes < bytes := by
  have nonempty : units ≠ [] := by
    rintro rfl
    exact erred.result
  have stopped := encodeGroup_of_errs nonempty rfl erred
  have general : Result.Errors (fun reason => reason = .epochTooLarge bytes limit →
      ∃ unit ∈ units, encodedEpochBytes unit.records = .ok bytes ∧
        world.storage.config.maxEpochBytes < bytes) (world.storage.encodeGroup units) := by
    unfold Storage.encodeGroup
    refine errors_bind (errors_orError fun _ => nofun) fun _ _ => ?_
    refine errors_bind (errors_tryFold fun _ _ _ => ?_) fun _ _ => ?_
    · exact errors_bind (errors_orError fun _ => nofun) fun _ _ => errors_orError fun _ => nofun
    refine errors_bind ?_ fun _ _ => ?_
    · refine errors_bind (errors_tryFold fun _ unit member => ?_) fun _ _ => errors_pure _
      refine prepareUnit_errors nofun nofun (fun _ => nofun) (fun size encoded large same => ?_) _
      cases same
      exact ⟨unit, member, encoded, large⟩
    refine errors_bind (errors_tryFold fun _ _ _ => errors_orError fun _ => nofun) fun _ _ => ?_
    refine errors_bind (errors_orError fun _ => nofun) fun _ _ => ?_
    exact errors_bind (errors_ensure fun _ => nofun) fun _ _ => errors_pure _
  exact general _ stopped rfl

/-- **The sizes of an epoch agree**: that of its admission, that of the writer, which is in its commit,
and the bytes it takes in its segment. The first two are computed exactly if the sum is a word, up to
the check of the sequences. -/
structure EpochSizesAgree (streamId : StreamId) (firstSequence : Nat) (records : List Record) : Prop where
  prepared : ∀ bytes prepared, encodedEpochBytes records = .ok bytes →
    PreparedEpoch.new streamId firstSequence records = .ok prepared → prepared.encodedBytes = bytes
  placed : ∀ prepared path start write,
    PreparedEpoch.new streamId firstSequence records = .ok prepared →
    prepareEpochWrite path start prepared = .ok write →
      write.endOffset = start + prepared.encodedBytes ∧
        ∃ digest, EpochCommit.decode write.commit = .ok ⟨start, prepared.encodedBytes, digest⟩
  overflows : (∃ reason, encodedEpochBytes records = .error reason) ↔
    wordMax < epochHeaderLen + recordsLength records + epochCommitLen
  alike : (∃ reason, PreparedEpoch.new streamId firstSequence records = .error reason) ↔
    (∃ reason, encodedEpochBytes records = .error reason) ∨
      wordMax < firstSequence + (records.length - 1)

/-- **The three computations of the size of an epoch agree**, and an append of admitted epochs never
rejects one as too large. -/
theorem epoch_sizes_agree :
    (∀ (streamId : StreamId) (firstSequence : Nat) (records : List Record), records ≠ [] →
      EpochSizesAgree streamId firstSequence records) ∧
    ∀ (world final : World) (units : List AppendUnit) (expiry creation : Clock) (bytes limit : Nat),
      (∀ unit ∈ units, ∃ size, encodedEpochBytes unit.records = .ok size ∧
        size ≤ world.storage.config.maxEpochBytes) →
      ¬ Errs (appendGroup units expiry creation) world (.epochTooLarge bytes limit) final := by
  refine ⟨fun streamId firstSequence records nonempty => ?_,
    fun world final units expiry creation bytes limit admitted erred => ?_⟩
  · refine ⟨fun bytes prepared encoded isNew => ?_, fun prepared path start write isNew placed => ?_,
      encodedEpochBytes_fails_iff nonempty, PreparedEpoch.new_fails_iff nonempty⟩
    · exact Except.ok.inj ((encodedEpochBytes_of_new isNew).symm.trans encoded)
    · obtain ⟨valid, rfl⟩ := PreparedEpoch.new_eq_ok.mp isNew
      obtain ⟨room, rfl⟩ := (prepareEpochWrite_eq_ok valid).mp placed
      exact ⟨rfl, _, Epoch.commit_decode room⟩
  · obtain ⟨unit, member, encoded, large⟩ := tooLarge_of_errs erred
    obtain ⟨size, isSize, within⟩ := admitted unit member
    cases isSize.symm.trans encoded
    omega

end

/-- An epoch of one record takes 131 bytes, by each of the computations. -/
theorem epoch_sizes_agree_sample : ∃ prepared write,
    encodedEpochBytes [⟨[1, 2], [3]⟩] = .ok 131 ∧
    @PreparedEpoch.new Hasher.fnv 1 0 [⟨[1, 2], [3]⟩] = .ok prepared ∧ prepared.encodedBytes = 131 ∧
    @prepareEpochWrite Hasher.fnv .root 48 prepared = .ok write ∧ write.endOffset = 179 := by
  let _ : Hasher := Hasher.fnv
  let epoch : Epoch := ⟨1, 0, [⟨[1, 2], [3]⟩]⟩
  have valid : epoch.Valid := ⟨by decide, by decide, by decide⟩
  have encoded : encodedEpochBytes epoch.records = .ok 131 :=
    encodedEpochBytes_eq_ok.mpr ⟨valid.nonempty, by decide, rfl⟩
  have isNew : PreparedEpoch.new 1 0 epoch.records = .ok epoch.prepared :=
    PreparedEpoch.new_eq_ok.mpr ⟨valid, rfl⟩
  have placed : prepareEpochWrite .root 48 epoch.prepared = .ok _ :=
    (prepareEpochWrite_eq_ok valid).mpr ⟨by decide, rfl⟩
  have agree := (@epoch_sizes_agree Hasher.fnv).1 1 0 epoch.records valid.nonempty
  have size := agree.prepared _ _ encoded isNew
  refine ⟨_, _, encoded, isNew, size, placed, ?_⟩
  rw [(agree.placed _ _ _ _ isNew placed).1, size]

end Camus
