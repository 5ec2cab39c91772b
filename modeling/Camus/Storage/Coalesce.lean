/-
**Sequences of a release are coalesced to canonical ranges.**

A release names its sequences by ranges. Coalescing an increasing list keeps a pending range that the
next sequence extends or ends:

* `expansion_coalesceSequences` — the ranges name the sequences, in order.
* `canonical_coalesceSequences` — they are canonical, also where they reach the last sequence.
* `Replays.release` — replaying the frame marks exactly the records of the sequences.
* `coalesceSequences_exact` — together with the frame: it can be encoded and reads back unchanged.
-/

import Camus.Format.Frames
import Camus.Storage.Opened

namespace Camus

open Codec Checked Result Std

variable {sequences : List Nat}

/-! ### Coalescing -/

theorem sequences_succ (start len : Nat) :
    SequenceRange.sequences ⟨start, len + 1⟩ = SequenceRange.sequences ⟨start, len⟩ ++ [start + len] := by
  simp [SequenceRange.sequences, List.range'_concat]

theorem expansion_coalesceFrom (current : SequenceRange) (rest : List Nat) :
    expansion (coalesceFrom current rest) = current.sequences ++ rest := by
  induction rest generalizing current with
  | nil => simp [coalesceFrom, expansion]
  | cons sequence rest ih =>
    rw [coalesceFrom]
    split
    · rename_i extends_
      obtain ⟨rfl, -⟩ := checkedAdd_eq_some.mp extends_
      rw [ih, sequences_succ, List.append_assoc]
      rfl
    · have single : SequenceRange.sequences ⟨sequence, 1⟩ = [sequence] := rfl
      rw [expansion, List.flatMap_cons]
      exact congrArg _ ((ih _).trans (by rw [single]; rfl))

/-- **The ranges name the sequences, in order.** -/
theorem expansion_coalesceSequences (sequences : List Nat) :
    expansion (coalesceSequences sequences) = sequences := by
  cases sequences with
  | nil => rfl
  | cons sequence rest => exact expansion_coalesceFrom _ _

/-- The pending range is emitted only where the next sequence leaves a gap: if its successor is no word
there is no next sequence. -/
theorem validate_coalesceFrom {previousEnd : Option Nat} {current : SequenceRange} {rest : List Nat}
    (nonzero : current.len ≠ 0) (fits : current.start + (current.len - 1) ≤ wordMax)
    (follows : ∀ previous, previousEnd = some previous → previous + 2 ≤ current.start)
    (increasing : rest.Pairwise (· < ·)) (words : ∀ sequence ∈ rest, sequence ≤ wordMax)
    (beyond : ∀ sequence ∈ rest, current.start + current.len ≤ sequence) :
    validateRangesAfter previousEnd (coalesceFrom current rest) = .ok () := by
  induction rest generalizing previousEnd current with
  | nil => exact validateRangesAfter_cons.mpr ⟨nonzero, fits, follows, rfl⟩
  | cons sequence rest ih =>
    obtain ⟨above, ordered⟩ := List.pairwise_cons.mp increasing
    obtain ⟨word, others⟩ := List.forall_mem_cons.mp words
    obtain ⟨start, -⟩ := List.forall_mem_cons.mp beyond
    rw [coalesceFrom]
    split
    · rename_i extends_
      obtain ⟨rfl, -⟩ := checkedAdd_eq_some.mp extends_
      refine ih (Nat.succ_ne_zero _) ?_ follows ordered others fun other member => ?_
      · show current.start + (current.len + 1 - 1) ≤ wordMax
        omega
      · have := above other member
        show current.start + (current.len + 1) ≤ other
        omega
    · rename_i gap
      have apart : current.start + current.len ≠ sequence := fun same =>
        gap (checkedAdd_eq_some.mpr ⟨same, by omega⟩)
      refine validateRangesAfter_cons.mpr ⟨nonzero, fits, follows, ?_⟩
      refine ih Nat.one_ne_zero word ?_ ordered others fun other member => above other member
      rintro _ ⟨⟩
      show current.start + (current.len - 1) + 2 ≤ sequence
      omega

/-- **Increasing words are coalesced to canonical ranges.** -/
theorem canonical_coalesceSequences (nonempty : sequences ≠ [])
    (increasing : sequences.Pairwise (· < ·)) (words : ∀ sequence ∈ sequences, sequence ≤ wordMax) :
    CanonicalRanges (coalesceSequences sequences) := by
  refine canonicalRanges_iff.mpr ⟨fun empty => nonempty ?_, ?_⟩
  · rw [← expansion_coalesceSequences sequences, empty]
    rfl
  · cases sequences with
    | nil => rfl
    | cons sequence rest =>
      obtain ⟨above, increasing⟩ := List.pairwise_cons.mp increasing
      obtain ⟨word, words⟩ := List.forall_mem_cons.mp words
      exact validate_coalesceFrom Nat.one_ne_zero word (fun _ never => by cases never) increasing words
        fun other member => above other member

/-- A range is no longer than the list it names a part of. -/
theorem len_le_of_mem_coalesceSequences {range : SequenceRange}
    (member : range ∈ coalesceSequences sequences) : range.len ≤ sequences.length := by
  have total : sequences.length = ((coalesceSequences sequences).map (·.len)).sum := by
    rw [← expansion_length, expansion_coalesceSequences]
  rw [total]
  exact List.single_le_sum (fun _ _ => Nat.zero_le _) _ (List.mem_map_of_mem member)

/-! ### The replay of a release -/

section Replay

variable {locations : ExtTreeMap Identity RecordPointer} {streamId : StreamId} {highwater : Nat}

/-- Ranges below the high-water are replayed sequence by sequence. -/
theorem releaseRanges_eq {ranges : List SequenceRange} (segments : SegmentMap)
    (ends : ∀ range ∈ ranges, range.len ≠ 0 ∧ range.start + (range.len - 1) ≤ wordMax)
    (known : ∀ range ∈ ranges, range.start + (range.len - 1) ≤ highwater) :
    tryFold (releaseRange locations streamId highwater) segments ranges =
      tryFold (releaseSequence locations streamId) segments (expansion ranges) := by
  induction ranges generalizing segments with
  | nil => rfl
  | cons range rest ih =>
    obtain ⟨⟨nonzero, fits⟩, ends⟩ := List.forall_mem_cons.mp ends
    obtain ⟨below, known⟩ := List.forall_mem_cons.mp known
    have finish : range.finish = .ok (range.start + (range.len - 1)) :=
      SequenceRange.finish_eq_ok.mpr ⟨nonzero, rfl, fits⟩
    have span : range.start + (range.len - 1) + 1 - range.start = range.len := by omega
    have here : releaseRange locations streamId highwater segments range =
        tryFold (releaseSequence locations streamId) segments range.sequences := by
      simp only [releaseRange, malformed, finish, mapError, ok_bind, below, decide_true,
        ensure, if_true, span]
      rfl
    rw [tryFold_cons, here, expansion, List.flatMap_cons, tryFold_append]
    exact congrArg _ (funext fun next => ih next ends known)

/-- Replaying the frame marks the sequences one after the other. -/
theorem applyRelease_coalesceSequences {streams : StreamMap} (segments : SegmentMap)
    (nonempty : sequences ≠ []) (increasing : sequences.Pairwise (· < ·))
    (words : ∀ sequence ∈ sequences, sequence ≤ wordMax)
    (durable : streams[streamId]?.bind (·.highwater) = some highwater)
    (known : ∀ sequence ∈ sequences, sequence ≤ highwater) :
    applyRelease streams locations segments ⟨streamId, coalesceSequences sequences⟩ =
      tryFold (releaseSequence locations streamId) segments sequences := by
  have canonical := canonical_coalesceSequences nonempty increasing words
  have below : ∀ range ∈ coalesceSequences sequences, range.start + (range.len - 1) ≤ highwater := by
    intro range member
    obtain ⟨nonzero, -⟩ := canonical.ends range member
    refine known _ ?_
    rw [← expansion_coalesceSequences sequences, mem_expansion]
    exact ⟨range, member, Nat.le_add_right _ _, by omega⟩
  have all : tryFold (releaseRange locations streamId highwater) segments
      (coalesceSequences sequences) = _ := releaseRanges_eq segments canonical.ends below
  rw [expansion_coalesceSequences] at all
  simp only [applyRelease, durable, orError, ok_bind]
  exact all

/-- The replay marks the sequences it finds if their places exist. -/
theorem releaseSequences_isOk {segments : SegmentMap}
    (inside : ∀ (sequence : Nat) (pointer : RecordPointer),
      locations[((streamId, sequence) : Identity)]? = some pointer →
        ∃ record, Placed segments pointer.segmentId pointer.ordinal record) :
    ∃ next, tryFold (releaseSequence locations streamId) segments sequences = .ok next := by
  induction sequences generalizing segments with
  | nil => exact ⟨segments, rfl⟩
  | cons sequence rest ih =>
    have step : ∃ next, releaseSequence locations streamId segments sequence = .ok next := by
      unfold releaseSequence
      cases found : locations[((streamId, sequence) : Identity)]? with
      | none => exact ⟨segments, rfl⟩
      | some pointer =>
        obtain ⟨record, segment, isSegment, isRecord⟩ := inside sequence pointer found
        obtain ⟨below, -⟩ := List.getElem?_eq_some_iff.mp isRecord
        simp [markReleased, isSegment, orError, ensure, below, pure, Except.pure]
    obtain ⟨next, isNext⟩ := step
    rw [tryFold_cons, isNext, ok_bind]
    have flagged := (unflagged segments locations).releaseSequence isNext
    refine ih fun other pointer found => ?_
    obtain ⟨record, placed⟩ := inside other pointer found
    obtain ⟨marked, isMarked, -⟩ := flagged.marked placed
    exact ⟨marked, isMarked⟩

/-- The locations of the replay are the places of the segments. -/
theorem Replays.located {scanned segments : SegmentMap} {highwaters : Highwaters}
    {control : Control} {replay : Replay} (replays : Replays scanned highwaters control replay segments)
    {sequence segmentId ordinal : Nat} :
    replay.locations[((streamId, sequence) : Identity)]? = some ⟨segmentId, ordinal⟩ ↔
      ∃ record, Placed segments segmentId ordinal record ∧ record.streamId = streamId ∧
        record.sequence = sequence := by
  obtain ⟨applied, -, isReplay, isReleased⟩ := replays
  have replayed := replayed_all isReplay
  have flagged := flagged_all isReleased
  constructor
  · intro found
    obtain ⟨stored, placed, isStream, isSequence⟩ := replayed.place _ _ _ found
    obtain ⟨marked, isMarked, kept, -⟩ := flagged.marked placed
    refine ⟨marked, isMarked, ?_, ?_⟩
    · rw [kept]
      exact isStream
    · rw [kept]
      exact isSequence
  · rintro ⟨record, placed, rfl, rfl⟩
    obtain ⟨stored, isStored, isStream, isSequence⟩ := flagged.placed placed
    rw [← isStream, ← isSequence]
    exact replayed.located _ _ _ trivial isStored

/-- **Replaying the frame marks exactly the sequences**, after whatever the log releases before it. -/
theorem Replays.release {scanned segments : SegmentMap} {highwaters : Highwaters}
    {control : Control} {replay : Replay} (replays : Replays scanned highwaters control replay segments)
    (nonempty : sequences ≠ []) (increasing : sequences.Pairwise (· < ·))
    (words : ∀ sequence ∈ sequences, sequence ≤ wordMax)
    (durable : replay.streams[streamId]?.bind (·.highwater) = some highwater)
    (known : ∀ sequence ∈ sequences, sequence ≤ highwater) :
    ∃ marked, Replays scanned highwaters { control with
        releases := control.releases ++ [⟨streamId, coalesceSequences sequences⟩] } replay marked ∧
      Flagged segments (fun segmentId ordinal => ∃ record, Placed segments segmentId ordinal record ∧
        record.streamId = streamId ∧ record.sequence ∈ sequences) marked := by
  have located := @replays.located
  obtain ⟨marked, isMarked⟩ := @releaseSequences_isOk sequences replay.locations streamId segments
    fun sequence pointer found => ((located streamId).mp found).imp fun _ placed => placed.1
  have replayed : applyRelease replay.streams replay.locations segments
      ⟨streamId, coalesceSequences sequences⟩ = .ok marked :=
    (applyRelease_coalesceSequences segments nonempty increasing words durable known).trans isMarked
  obtain ⟨applied, isApplied, isReplay, isReleased⟩ := replays
  refine ⟨marked, ⟨applied, isApplied, isReplay, ?_⟩, ?_⟩
  · rw [tryFold_append, isReleased, ok_bind, tryFold_cons, replayed]
    rfl
  · refine ((unflagged segments replay.locations).applyRelease replayed).congr
      fun segmentId ordinal => ?_
    simp only [Named, false_or, covers_iff, ← mem_expansion, expansion_coalesceSequences, located]
    constructor
    · rintro ⟨_, _, ⟨rfl, member⟩, record, placed, isStream, rfl⟩
      exact ⟨record, placed, isStream, member⟩
    · rintro ⟨record, placed, isStream, member⟩
      exact ⟨streamId, record.sequence, ⟨rfl, member⟩, record, placed, isStream, rfl⟩

end Replay

/-! ### Frames of releases -/

/-- **Coalescing is exact and canonical.** The ranges of an increasing list of words are canonical, name
the list in order, and no other ranges name it with fewer. Their frame can be encoded and reads back
unchanged, and its replay marks exactly the records of the sequences.

The sequences come in a slice of 8 bytes a sequence and the ranges are held in a vector of 16 bytes a
range, both shorter than 2^63 bytes: those are the bounds. -/
theorem coalesceSequences_exact [Hasher] {sequences : List Nat} (nonempty : sequences ≠ [])
    (increasing : sequences.Pairwise (· < ·)) (words : ∀ sequence ∈ sequences, sequence ≤ wordMax)
    (few : sequences.length * 8 < 2 ^ 63) (short : (coalesceSequences sequences).length * 16 < 2 ^ 63) :
    CanonicalRanges (coalesceSequences sequences) ∧
    expansion (coalesceSequences sequences) = sequences ∧
    (∀ others : List SequenceRange,
      (∀ sequence, sequence ∈ sequences ↔ ∃ range ∈ others, range.Contains sequence) →
        (coalesceSequences sequences).length ≤ others.length) ∧
    (∀ (streamId : StreamId) (manifestSeq : Nat), manifestSeq ≠ 0 → manifestSeq ≤ wordMax →
      ∃ bytes header, ManifestFrame.encodeParts manifestSeq
          (.release ⟨streamId, coalesceSequences sequences⟩) = .ok bytes ∧
        ManifestFrameHeader.decode (slice bytes 0 manifestFrameHeaderLen) = .ok header ∧
        ManifestFrame.decode header (slice bytes manifestFrameHeaderLen header.bodyLen) =
          .ok ⟨manifestSeq, .release ⟨streamId, coalesceSequences sequences⟩⟩) ∧
    ∀ (scanned : SegmentMap) (highwaters : Highwaters) (control : Control)
      (replay : Replay) (segments : SegmentMap) (streamId : StreamId) (highwater : Nat),
      Replays scanned highwaters control replay segments →
      replay.streams[streamId]?.bind (·.highwater) = some highwater →
      (∀ sequence ∈ sequences, sequence ≤ highwater) →
      ∃ marked, Replays scanned highwaters { control with
          releases := control.releases ++ [⟨streamId, coalesceSequences sequences⟩] } replay marked ∧
        Flagged segments (fun segmentId ordinal => ∃ record, Placed segments segmentId ordinal record ∧
          record.streamId = streamId ∧ record.sequence ∈ sequences) marked := by
  have canonical := canonical_coalesceSequences nonempty increasing words
  have limit : wordMax = 18446744073709551615 := wordMax_eq
  refine ⟨canonical, expansion_coalesceSequences sequences, fun others same => ?_,
    fun streamId manifestSeq nonzero seq => ?_,
    fun scanned highwaters control replay segments streamId highwater replays durable known =>
      replays.release nonempty increasing words durable known⟩
  · refine length_le_of_same (canonicalRanges_iff.mp canonical).2 fun sequence => ?_
    rw [← mem_expansion, expansion_coalesceSequences, same]
  · have length : (ReleaseBody.layout ⟨streamId, coalesceSequences sequences⟩).length =
        24 + (coalesceSequences sequences).length * 16 := ReleaseBody.layout_length _
    have lens : ∀ range ∈ coalesceSequences sequences, range.len ≤ wordMax := fun range member =>
      (len_le_of_mem_coalesceSequences member).trans (by omega)
    have encoded : ManifestBody.encode (.release ⟨streamId, coalesceSequences sequences⟩) = .ok _ :=
      (encode_release_iff lens).mpr ⟨canonical, by
        show 24 + (coalesceSequences sequences).length * 16 ≤ wordMax
        omega, rfl⟩
    have framed := ManifestFrame.encodeParts_eq_ok.mpr ⟨nonzero, _, encoded, by
      rw [length]
      unfold manifestFrameHeaderLen
      omega, rfl⟩
    have fits : ManifestBody.Representable (.release ⟨streamId, coalesceSequences sequences⟩) := trivial
    obtain ⟨header, isHeader, -, -, -, decoded⟩ := ManifestFrame.decode_encodeParts seq fits framed
    exact ⟨_, header, framed, isHeader, decoded⟩

namespace CoalesceSample

def record (streamId : StreamId) (sequence : Nat) : StoredRecord :=
  ⟨streamId, sequence, 0, 0, 0, 0, 0, 0, 0, false⟩

/-- A segment with the last two sequences of a stream and a record of another one. -/
def segments : SegmentMap :=
  (∅ : SegmentMap).insert 0 ⟨0, 3, ⟨.sample, 0, 5⟩, [], 0,
    [record 1 (wordMax - 1), record 1 wordMax, record 2 0], 2, 0, [], none, false⟩

def highwaters : Highwaters :=
  (∅ : Highwaters).insert 1 (wordMax - 2)

def replay : Option Replay :=
  (tryFold (replaySegment segments ∅ ∅) ⟨checkpointStreams highwaters, ∅, ∅⟩
    (allSegmentIds segments ∅)).toOption

end CoalesceSample

open CoalesceSample in
/-- The ranges reach the last sequence, and their replay marks the two records that are still there. -/
theorem coalesceSequences_exact_sample :
    coalesceSequences [3, 4, wordMax - 1, wordMax] = [⟨3, 2⟩, ⟨wordMax - 1, 2⟩] ∧
    CanonicalRanges (coalesceSequences [3, 4, wordMax - 1, wordMax]) ∧
    ∃ found marked, Replays segments highwaters ⟨∅, ∅, [⟨1, [⟨3, 2⟩, ⟨wordMax - 1, 2⟩]⟩], ∅⟩ found marked ∧
      Flagged segments (fun segmentId ordinal => ∃ record, Placed segments segmentId ordinal record ∧
        record.streamId = 1 ∧ record.sequence ∈ [3, 4, wordMax - 1, wordMax]) marked := by
  obtain ⟨canonical, -, -, -, replayed⟩ := @coalesceSequences_exact Hasher.fnv
    [3, 4, wordMax - 1, wordMax] (by decide) (by decide) (by decide) (by decide) (by decide)
  have known : replay.any (fun found =>
      found.streams[(1 : StreamId)]?.bind (·.highwater) = some wordMax) = true := by decide +kernel
  obtain ⟨found, isFound, durable⟩ := (Option.any_eq_true _ _).mp known
  obtain ⟨marked, isMarked, flagged⟩ := replayed segments highwaters ⟨∅, ∅, [], ∅⟩ found segments 1 wordMax
    ⟨segments, rfl, toOption_eq_some.mp isFound, rfl⟩ (of_decide_eq_true durable) (by decide)
  exact ⟨by decide, canonical, found, marked, isMarked, flagged⟩

end Camus
