/-
**Frames of the manifest log have one encoding.**

A frame that was encoded reads back as itself, and a frame that is read is what the encoder writes.
The body of a Release is accepted exactly if its ranges are canonical and it counts the sequences they
name.

* `validateRangesAfter_iff` — what the checks of a range set say: every range ends within a word, and
  each starts beyond the successor of the end of the one before it.
* `expansion` — the sequences of a range set in order; a canonical set of words has no more than a word can
  count (`expansion_length_le`).
* `frame_codec_bijection` — encoding and decoding of frames are inverse.
-/

import Camus.Format.Canonical
import Camus.Format.ReleaseCanonical

namespace Camus

open Checked Codec

variable {bytes : Bytes} {sequence : Nat} {previousEnd : Option Nat}

/-! ### Range sets -/

/-- The sequences a range names, in order. -/
def SequenceRange.sequences (range : SequenceRange) : List Nat := List.range' range.start range.len

theorem SequenceRange.mem_sequences {range : SequenceRange} :
    sequence ∈ range.sequences ↔ range.Contains sequence := List.mem_range'_1

/-- The sequences some ranges name, in order. -/
def expansion (ranges : List SequenceRange) : List Nat := ranges.flatMap SequenceRange.sequences

theorem expansion_length (ranges : List SequenceRange) :
    (expansion ranges).length = (ranges.map (·.len)).sum := by
  simp [expansion, SequenceRange.sequences, List.length_flatMap]

theorem mem_expansion {ranges : List SequenceRange} :
    sequence ∈ expansion ranges ↔ ∃ range ∈ ranges, range.Contains sequence := by
  simp only [expansion, List.mem_flatMap, SequenceRange.mem_sequences]

/-- **Canonical range sets**: nonempty, sorted, disjoint and not adjacent, each range with an end that
is a word. -/
structure CanonicalRanges (ranges : List SequenceRange) : Prop where
  nonempty : ranges ≠ []
  ends : ∀ range ∈ ranges, range.len ≠ 0 ∧ range.start + (range.len - 1) ≤ wordMax
  apart : ranges.Pairwise fun earlier later => earlier.start + earlier.len < later.start

/-- **What the checks of a range set say.** -/
theorem validateRangesAfter_iff {ranges : List SequenceRange} :
    validateRangesAfter previousEnd ranges = .ok () ↔
      (∀ range ∈ ranges, range.len ≠ 0 ∧ range.start + (range.len - 1) ≤ wordMax) ∧
      ranges.Pairwise (fun earlier later => earlier.start + earlier.len < later.start) ∧
      ∀ previous, previousEnd = some previous → ∀ range ∈ ranges, previous + 2 ≤ range.start := by
  induction ranges generalizing previousEnd with
  | nil => simp [validateRangesAfter]
  | cons range rest ih =>
    rw [validateRangesAfter_cons, ih, List.forall_mem_cons, List.pairwise_cons]
    constructor
    · rintro ⟨nonzero, fits, order, ends, apart, after⟩
      refine ⟨⟨⟨nonzero, fits⟩, ends⟩, ⟨fun later member => ?_, apart⟩, fun previous isPrevious => ?_⟩
      · have := after _ rfl later member
        omega
      · have start := order previous isPrevious
        refine List.forall_mem_cons.mpr ⟨start, fun later member => ?_⟩
        have := after _ rfl later member
        omega
    · rintro ⟨⟨⟨nonzero, fits⟩, ends⟩, ⟨first, apart⟩, after⟩
      refine ⟨nonzero, fits, fun previous isPrevious => ?_, ends, apart, ?_⟩
      · exact after previous isPrevious range List.mem_cons_self
      · rintro _ ⟨⟩ later member
        have := first later member
        omega

theorem canonicalRanges_iff {ranges : List SequenceRange} :
    CanonicalRanges ranges ↔ ranges ≠ [] ∧ validateRangesAfter none ranges = .ok () := by
  rw [validateRangesAfter_iff]
  constructor
  · rintro ⟨nonempty, ends, apart⟩
    exact ⟨nonempty, ends, apart, fun _ never => by cases never⟩
  · rintro ⟨nonempty, ends, apart, -⟩
    exact ⟨nonempty, ends, apart⟩

/-- **A canonical range set counts within a word.** One range has a word for its length, and between
two ranges a sequence is missing. -/
theorem expansion_length_le {ranges : List SequenceRange} (canonical : CanonicalRanges ranges)
    (words : ∀ range ∈ ranges, range.len ≤ wordMax) : (expansion ranges).length ≤ wordMax := by
  rw [expansion_length]
  have bounded : ∀ range ∈ ranges, range.start + (range.len - 1) < wordMax + 1 :=
    fun range member => Nat.lt_succ_of_le (canonical.ends range member).2
  obtain ⟨-, valid⟩ := canonicalRanges_iff.mp canonical
  match ranges with
  | [] => exact absurd rfl canonical.nonempty
  | [range] => simpa using words range List.mem_cons_self
  | first :: second :: rest =>
    obtain ⟨nonzero, -, -, later⟩ := validateRangesAfter_cons.mp valid
    obtain ⟨secondNonzero, -, order, last⟩ := validateRangesAfter_cons.mp later
    have start := order _ rfl
    have total := sum_len_le_of_validateRangesAfter last
      (fun range member => bounded range (List.mem_cons_of_mem _ (List.mem_cons_of_mem _ member)))
      (by simpa using bounded second (List.mem_cons_of_mem _ List.mem_cons_self))
    simp only [Option.map_some, Option.getD_some] at total
    simp only [List.map_cons, List.sum_cons]
    omega

/-- **Canonical range sets are shortest.** No other ranges name the same sequences with fewer. -/
theorem length_le_of_same {ranges others : List SequenceRange}
    (valid : validateRangesAfter previousEnd ranges = .ok ())
    (same : ∀ sequence, (∃ range ∈ ranges, range.Contains sequence) ↔
      ∃ range ∈ others, range.Contains sequence) : ranges.length ≤ others.length := by
  induction ranges generalizing previousEnd others with
  | nil => exact Nat.zero_le _
  | cons first rest ih =>
    obtain ⟨nonzero, -, -, later⟩ := validateRangesAfter_cons.mp valid
    -- the other ranges that start beyond the first one name what the rest names
    have beyond : ∀ sequence, (∃ range ∈ rest, range.Contains sequence) ↔
        ∃ range ∈ others.filter (fun range => first.start + first.len ≤ range.start),
          range.Contains sequence := by
      intro sequence
      rw [contains_rest_iff valid, same]
      constructor
      · rintro ⟨⟨range, member, contains⟩, after⟩
        refine ⟨range, List.mem_filter.mpr ⟨member, decide_eq_true ?_⟩, contains⟩
        by_contra early
        obtain ⟨_, inRanges, successor⟩ := (same (first.start + first.len)).mpr
          ⟨range, member, by omega, after.trans_lt contains.2⟩
        exact not_contains_successor valid inRanges successor
      · rintro ⟨range, member, contains⟩
        obtain ⟨inOthers, after⟩ := List.mem_filter.mp member
        exact ⟨⟨range, inOthers, contains⟩, (of_decide_eq_true after).trans contains.1⟩
    have fewer := ih later beyond
    obtain ⟨range, member, contains⟩ := (same first.start).mp
      ⟨first, List.mem_cons_self, le_rfl, by omega⟩
    have dropped : (others.filter (fun range => first.start + first.len ≤ range.start)).length <
        others.length := by
      refine List.length_filter_lt_length_iff_exists.mpr ⟨range, member, ?_⟩
      have := contains.1
      simp only [decide_eq_true_eq]
      omega
    rw [List.length_cons]
    omega

/-! ### Release bodies -/

/-- The bytes of a Release body. -/
def ReleaseBody.layout (body : ReleaseBody) : Bytes :=
  word body.streamId.val ++ (word (expansion body.ranges).length ++ (word body.ranges.length ++
    body.ranges.flatMap SequenceRange.encode))

theorem ReleaseBody.layout_length (body : ReleaseBody) :
    body.layout.length = 24 + body.ranges.length * 16 := by
  rw [ReleaseBody.layout, List.length_append, List.length_append, List.length_append,
    flatMap_length SequenceRange.encode_length]
  simp only [word_length]
  omega

/-- A release body is encoded exactly if its ranges are canonical and its length is a word. -/
theorem encode_release_iff {body : ReleaseBody} (words : ∀ range ∈ body.ranges, range.len ≤ wordMax)
    :
    ManifestBody.encode (.release body) = .ok bytes ↔ CanonicalRanges body.ranges ∧
      24 + body.ranges.length * 16 ≤ wordMax ∧ bytes = body.layout := by
  simp only [ManifestBody.encode_release, ReleaseBody.releasedCount_eq_ok, ← expansion_length]
  constructor
  · rintro ⟨_, ⟨nonempty, valid, rfl, -⟩, short, rfl⟩
    exact ⟨canonicalRanges_iff.mpr ⟨nonempty, valid⟩, short, rfl⟩
  · rintro ⟨canonical, short, rfl⟩
    obtain ⟨nonempty, valid⟩ := canonicalRanges_iff.mp canonical
    exact ⟨_, ⟨nonempty, valid, rfl, expansion_length_le canonical words⟩, short, rfl⟩

/-- **Which Release bodies are accepted.** -/
theorem decode_release_iff {body : ReleaseBody} (fits : bytes.length ≤ wordMax) :
    ManifestBody.decode releaseKind bytes = .ok (.release body) ↔
      (∀ range ∈ body.ranges, range.len ≤ wordMax) ∧ CanonicalRanges body.ranges ∧
        bytes = body.layout := by
  have isRelease : ManifestBody.decode releaseKind bytes = ManifestBody.decodeRelease bytes := if_pos rfl
  rw [isRelease]
  constructor
  · intro decoded
    obtain ⟨encoded, -⟩ := ManifestBody.encode_decodeRelease decoded
    obtain ⟨count, counted, -⟩ := ManifestBody.encode_release.mp encoded
    have words : ∀ range ∈ body.ranges, range.len ≤ wordMax := fun range member =>
      ((ReleaseBody.releasedCount_bounds counted).2.2 range member).2
    obtain ⟨canonical, -, isLayout⟩ := (encode_release_iff words).mp encoded
    exact ⟨words, canonical, isLayout⟩
  · rintro ⟨words, canonical, rfl⟩
    rw [ReleaseBody.layout_length] at fits
    exact ManifestBody.decodeRelease_encode ((encode_release_iff words).mpr ⟨canonical, fits, rfl⟩)

/-! ### Frames -/

/-- **Frames of the manifest log have one encoding.** Whatever is encoded reads back, split after its
forty-eight header bytes; whatever is read is what the encoder writes, the length of header and body
being a word; a Release body is read exactly if its ranges are canonical and it counts the sequences
they name, which a word can count. -/
theorem frame_codec_bijection [Hasher] :
    (∀ (manifestSeq : Nat) (body : ManifestBody) (bytes : Bytes), manifestSeq ≠ 0 →
      manifestSeq ≤ wordMax → body.Representable →
      ManifestFrame.encodeParts manifestSeq body = .ok bytes →
      ∃ header, ManifestFrameHeader.decode (bytes.take manifestFrameHeaderLen) = .ok header ∧
        ManifestFrame.decode header (bytes.drop manifestFrameHeaderLen) = .ok ⟨manifestSeq, body⟩) ∧
    (∀ (headerBytes bodyBytes : Bytes) (header : ManifestFrameHeader) (frame : ManifestFrame),
      manifestFrameHeaderLen + bodyBytes.length ≤ wordMax →
      ManifestFrameHeader.decode headerBytes = .ok header →
      ManifestFrame.decode header bodyBytes = .ok frame →
      ManifestFrame.encodeParts frame.manifestSeq frame.body = .ok (headerBytes ++ bodyBytes)) ∧
    (∀ (body : ReleaseBody) (bytes : Bytes), bytes.length ≤ wordMax →
      (ManifestBody.decode releaseKind bytes = .ok (.release body) ↔
        (∀ range ∈ body.ranges, range.len ≤ wordMax) ∧ CanonicalRanges body.ranges ∧
          bytes = body.layout)) ∧
    ∀ ranges : List SequenceRange, CanonicalRanges ranges → (∀ range ∈ ranges, range.len ≤ wordMax) →
      (expansion ranges).length ≤ wordMax := by
  refine ⟨fun manifestSeq body bytes _ seq fits encoded => ?_,
    fun headerBytes bodyBytes header frame short decodedHeader decoded =>
      (ManifestFrame.encodeParts_decode decodedHeader decoded short).1,
    fun body bytes fits => decode_release_iff fits,
    fun ranges canonical words => expansion_length_le canonical words⟩
  obtain ⟨header, isHeader, -, length, -, decoded⟩ := ManifestFrame.decode_encodeParts seq fits encoded
  have front : slice bytes 0 manifestFrameHeaderLen = bytes.take manifestFrameHeaderLen := by
    simp [slice]
  have back : slice bytes manifestFrameHeaderLen header.bodyLen = bytes.drop manifestFrameHeaderLen := by
    unfold slice
    exact List.take_of_length_le (by rw [List.length_drop]; omega)
  rw [front] at isHeader
  rw [back] at decoded
  exact ⟨header, isHeader, decoded⟩

/-- A release of sequences zero, one and five. -/
def sampleRelease : ReleaseBody := ⟨3, [⟨0, 2⟩, ⟨5, 1⟩]⟩

theorem frame_codec_bijection_sample : ∃ (bytes : Bytes) (header : ManifestFrameHeader),
    @ManifestFrame.encodeParts Hasher.fnv 7 (.release sampleRelease) = .ok bytes ∧
    @ManifestFrameHeader.decode Hasher.fnv (bytes.take manifestFrameHeaderLen) = .ok header ∧
    @ManifestFrame.decode Hasher.fnv header (bytes.drop manifestFrameHeaderLen) =
      .ok ⟨7, .release sampleRelease⟩ ∧
    ManifestBody.decode releaseKind sampleRelease.layout = .ok (.release sampleRelease) := by
  obtain ⟨back, -, accepted, -⟩ := @frame_codec_bijection Hasher.fnv
  have words : ∀ range ∈ sampleRelease.ranges, range.len ≤ wordMax := by decide
  have canonical : CanonicalRanges sampleRelease.ranges :=
    canonicalRanges_iff.mpr ⟨by decide, by decide⟩
  have encoded : ManifestBody.encode (.release sampleRelease) = .ok sampleRelease.layout :=
    (encode_release_iff words).mpr ⟨canonical, by decide, rfl⟩
  have framed := (@ManifestFrame.encodeParts_eq_ok Hasher.fnv 7 (.release sampleRelease) _).mpr
    ⟨by decide, _, encoded, by decide, rfl⟩
  obtain ⟨header, isHeader, decoded⟩ :=
    back 7 (.release sampleRelease) _ (by decide) (by decide) trivial framed
  exact ⟨_, header, framed, isHeader, decoded,
    (accepted sampleRelease sampleRelease.layout (by decide)).mpr ⟨words, canonical, rfl⟩⟩

end Camus
