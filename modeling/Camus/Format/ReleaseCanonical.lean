/-
**Every set of released records has one encoding.**

`ReleaseEncoding.fromFlags` chooses between ranges and a bitmap by size, and
`ReleaseEncoding.validateCanonical` accepts an encoding only if the writer would have chosen it. The
two directions meet here.

* `ranges_ext`: sorted ranges that neither meet nor touch are determined by the ordinals they name.
* `bitmap_ext`: the words of a bitmap are determined by its bits.
* `countRuns_eq`: the count by words is the number of ordinals at which a run starts, also where a
  run crosses from one word into the next.
* `ReleaseEncoding.fromFlags_toFlags`: an accepted encoding is the one of the flags it expands to.
-/

import Camus.Format.Release

namespace Camus

open Checked Codec Result

variable {words : List (BitVec 64)} {found : List SequenceRange} {ordinal bytes released : Nat}
  {range : SequenceRange}

/-! ### Ranges are determined by the ordinals they name -/

/-- Ranges that follow `previous` lie beyond its successor. -/
theorem lt_of_contains {previous : Nat} (valid : validateRangesAfter (some previous) found = .ok ())
    (member : range ∈ found) (contains : range.Contains ordinal) : previous + 2 ≤ ordinal := by
  induction found generalizing previous with
  | nil => cases member
  | cons first rest ih =>
    obtain ⟨-, -, order, later⟩ := validateRangesAfter_cons.mp valid
    have start := order previous rfl
    unfold SequenceRange.Contains at contains
    rcases List.mem_cons.mp member with rfl | inRest
    · omega
    · have := ih later inRest
      omega

section First

variable {previousEnd : Option Nat} {first : SequenceRange} {rest : List SequenceRange}

/-- The first range holds the least ordinal that some range names. -/
theorem start_le_of_contains (valid : validateRangesAfter previousEnd (first :: rest) = .ok ())
    (member : range ∈ first :: rest) (contains : range.Contains ordinal) :
    first.start ≤ ordinal := by
  obtain ⟨-, -, -, later⟩ := validateRangesAfter_cons.mp valid
  rcases List.mem_cons.mp member with rfl | inRest
  · exact contains.1
  · have := lt_of_contains later inRest contains
    omega

/-- The successor of the first range is in no range. -/
theorem not_contains_successor (valid : validateRangesAfter previousEnd (first :: rest) = .ok ())
    (member : range ∈ first :: rest) : ¬ range.Contains (first.start + first.len) := by
  intro contains
  obtain ⟨nonzero, -, -, later⟩ := validateRangesAfter_cons.mp valid
  rcases List.mem_cons.mp member with rfl | inRest
  · exact absurd contains.2 (lt_irrefl _)
  · have := lt_of_contains later inRest contains
    omega

/-- An ordinal beyond the first range is in a later one. -/
theorem contains_rest_iff (valid : validateRangesAfter previousEnd (first :: rest) = .ok ()) :
    (∃ range ∈ rest, range.Contains ordinal) ↔
      (∃ range ∈ first :: rest, range.Contains ordinal) ∧ first.start + first.len ≤ ordinal := by
  obtain ⟨nonzero, -, -, later⟩ := validateRangesAfter_cons.mp valid
  constructor
  · rintro ⟨range, member, contains⟩
    have := lt_of_contains later member contains
    exact ⟨⟨range, List.mem_cons_of_mem _ member, contains⟩, by omega⟩
  · rintro ⟨⟨range, member, contains⟩, beyond⟩
    rcases List.mem_cons.mp member with rfl | inRest
    · exact absurd contains.2 (by omega)
    · exact ⟨range, inRest, contains⟩

end First

/-- **Sorted, separated ranges are determined by the ordinals they name.** -/
theorem ranges_ext {previousLeft previousRight : Option Nat} {left right : List SequenceRange}
    (validLeft : validateRangesAfter previousLeft left = .ok ())
    (validRight : validateRangesAfter previousRight right = .ok ())
    (same : ∀ ordinal, (∃ range ∈ left, range.Contains ordinal) ↔
      ∃ range ∈ right, range.Contains ordinal) : left = right := by
  induction left generalizing previousLeft previousRight right with
  | nil =>
    cases right with
    | nil => rfl
    | cons range rest =>
      obtain ⟨nonzero, -⟩ := validateRangesAfter_cons.mp validRight
      obtain ⟨_, member, -⟩ := (same range.start).mpr
        ⟨range, List.mem_cons_self, by unfold SequenceRange.Contains; omega⟩
      cases member
  | cons first rest ih =>
    obtain ⟨nonzero, -, -, laterLeft⟩ := validateRangesAfter_cons.mp validLeft
    cases right with
    | nil =>
      obtain ⟨_, member, -⟩ := (same first.start).mp
        ⟨first, List.mem_cons_self, by unfold SequenceRange.Contains; omega⟩
      cases member
    | cons other others =>
      obtain ⟨otherNonzero, -, -, laterRight⟩ := validateRangesAfter_cons.mp validRight
      have headLeft : first.Contains first.start := by unfold SequenceRange.Contains; omega
      have headRight : other.Contains other.start := by unfold SequenceRange.Contains; omega
      -- each side's least ordinal is named by the other side
      obtain ⟨_, member, contains⟩ := (same _).mp ⟨first, List.mem_cons_self, headLeft⟩
      have atMost := start_le_of_contains validRight member contains
      obtain ⟨_, member, contains⟩ := (same _).mpr ⟨other, List.mem_cons_self, headRight⟩
      have atLeast := start_le_of_contains validLeft member contains
      have starts : first.start = other.start := by omega
      -- the successor of the shorter first range would be inside the longer one
      have notLonger : ¬ first.len < other.len := by
        intro shorter
        obtain ⟨_, member, contains⟩ := (same (first.start + first.len)).mpr
          ⟨other, List.mem_cons_self, by unfold SequenceRange.Contains; omega⟩
        exact not_contains_successor validLeft member contains
      have notShorter : ¬ other.len < first.len := by
        intro shorter
        obtain ⟨_, member, contains⟩ := (same (other.start + other.len)).mp
          ⟨first, List.mem_cons_self, by unfold SequenceRange.Contains; omega⟩
        exact not_contains_successor validRight member contains
      have heads : first = other := by
        cases first
        cases other
        simp only [SequenceRange.mk.injEq] at *
        omega
      subst heads
      refine congrArg _ (ih laterLeft laterRight fun ordinal => ?_)
      rw [contains_rest_iff validLeft, contains_rest_iff validRight, same]

/-! ### Words are determined by their bits -/

/-- **The words of a bitmap are determined by its bits.** -/
theorem bitmap_ext {left right : List (BitVec 64)} (sized : left.length = right.length)
    (same : ∀ ordinal, bitAt left ordinal = bitAt right ordinal) : left = right := by
  induction left generalizing right with
  | nil => exact (List.length_eq_zero_iff.mp sized.symm).symm
  | cons word rest ih =>
    obtain ⟨other, others, rfl⟩ := List.exists_cons_of_length_eq_add_one sized.symm
    have heads : word = other := by
      refine BitVec.eq_of_getLsbD_eq fun index small => ?_
      have bit := same index
      rwa [bitAt_cons, bitAt_cons, if_pos small, if_pos small] at bit
    have tails : rest = others := by
      refine ih (by simpa using sized) fun ordinal => ?_
      have bit := same (ordinal + 64)
      rwa [bitAt_cons, bitAt_cons, if_neg (by omega), if_neg (by omega),
        Nat.add_sub_cancel] at bit
    rw [heads, tails]

/-! ### Counting runs by words -/

/-- Two runs are apart, so at most every second flag starts one. -/
theorem two_mul_runStarts_le (previous : Bool) (flags : List Bool) :
    2 * runStarts previous flags + previous.toNat ≤ flags.length + 1 := by
  induction flags generalizing previous with
  | nil => cases previous <;> simp [runStarts]
  | cons flag rest ih =>
    have := ih flag
    rw [runStarts, List.length_cons]
    cases flag <;> cases previous <;> simp at * <;> omega

theorem runs_le_wordMax (bounded : words.length * 64 ≤ wordMax + 1) :
    runStarts false (bitsOf words) ≤ wordMax := by
  have half := two_mul_runStarts_le false (bitsOf words)
  rw [bitsOf_length] at half
  unfold wordMax at *
  omega

/-- **The runs of a bitmap, counted word by word**, are the ordinals that are set and whose
predecessor is not. -/
theorem countRuns_eq (bounded : words.length * 64 ≤ wordMax + 1) :
    countRuns 0 false words =
      .ok ((List.range (words.length * 64)).countP fun ordinal =>
        bitAt words ordinal && !(if ordinal = 0 then false else bitAt words (ordinal - 1))) := by
  rw [countRuns_eq_ok (by have := runs_le_wordMax bounded; omega), Nat.zero_add, bitsOf_eq_map,
    runStarts_map_range]

/-! ### Accepted encodings -/

namespace ReleaseEncoding

/-- What the checks of a range encoding say. -/
theorem validateRangeEncoding_eq_ok {recordCount : Nat}
    (accepted : validateRangeEncoding found recordCount bytes = .ok released) :
    validateRangesAfter none found = .ok () ∧
      (∀ range ∈ found, range.start + (range.len - 1) < recordCount) ∧
      (found.isEmpty = true ∨ found.length * 16 ≤ bytes) := by
  simp only [validateRangeEncoding, validateRanges, bind_eq_ok, ensure_eq_ok,
    orError_eq_ok, checkedMul_eq_some, toWord_eq_some, pure_eq_ok, Bool.or_eq_true,
    decide_eq_true_eq] at accepted
  obtain ⟨_, ⟨_, -, valid⟩, _, inside, _, -, _, ⟨rfl, -⟩, _, ⟨rfl, -⟩, _, smaller, -⟩ := accepted
  refine ⟨valid, fun range member => ?_, smaller⟩
  have checked := forall_of_tryMap_eq_ok inside range member
  simp only [bind_eq_ok, SequenceRange.finish_eq_ok, ensure_eq_ok,
    decide_eq_true_eq] at checked
  obtain ⟨_, ⟨-, rfl, -⟩, below⟩ := checked
  exact below

/-- What the checks of a bitmap encoding say. -/
theorem validateBitmapEncoding_eq_ok {recordCount : Nat}
    (accepted : validateBitmapEncoding words recordCount bytes = .ok released) :
    divCeil recordCount 64 = words.length ∧ unusedBitsClear words recordCount = true ∧
      ∃ runs, countRuns 0 false words = .ok runs ∧ bytes < runs * 16 := by
  simp only [validateBitmapEncoding, bind_eq_ok, ensure_eq_ok,
    orError_eq_ok, checkedMul_eq_some, decide_eq_true_eq] at accepted
  obtain ⟨_, sized, _, clear, _, -, _, -, runs, counted, _, ⟨rfl, -⟩, _, larger, -⟩ := accepted
  exact ⟨sized, clear, runs, counted, larger⟩

section Accepted

variable {recordCount : Nat} (isWord : recordCount ≤ wordMax)

include isWord

/-- An accepted range encoding is the one of the flags it expands to. -/
theorem fromFlags_toFlags_ranges
    (accepted : validateRangeEncoding found recordCount (divCeil recordCount 64 * 8) =
      .ok released) :
    ∃ flags, (ranges found).toFlags recordCount = .ok flags ∧ flags.length = recordCount ∧
      fromFlags flags = .ranges found := by
  obtain ⟨valid, inside, smaller⟩ := validateRangeEncoding_eq_ok accepted
  obtain ⟨flags, expanded, rfl, named⟩ := toFlags_ranges valid inside
  have own : validateRangesAfter none (ordinalRanges flags) = .ok () :=
    validateRangesAfter_ordinalRangesFrom (by omega) (by simp) (by simp)
  have same : ordinalRanges flags = found :=
    ranges_ext own valid fun ordinal => ordinalRanges_contains.trans (named ordinal)
  refine ⟨flags, expanded, rfl, ?_⟩
  unfold fromFlags
  simp only
  rw [same, bitmapWords_length]
  rcases smaller with empty | fits
  · rw [if_pos empty, List.isEmpty_iff.mp empty]
  · rw [if_pos ((saturatingMul_le_iff (divCeil_mul_le isWord)).mpr fits)]
    split_ifs with empty
    · rw [List.isEmpty_iff.mp empty]
    · rfl

/-- An accepted bitmap encoding is the one of the flags it expands to. -/
theorem fromFlags_toFlags_bitmap
    (accepted : validateBitmapEncoding words recordCount (divCeil recordCount 64 * 8) =
      .ok released) :
    ∃ flags, (bitmap words).toFlags recordCount = .ok flags ∧ flags.length = recordCount ∧
      fromFlags flags = .bitmap words := by
  obtain ⟨sized, clear, runs, counted, larger⟩ := validateBitmapEncoding_eq_ok accepted
  have short : words.length * 64 ≤ wordMax + 1 := by
    rw [← sized]
    unfold divCeil wordMax at *
    omega
  obtain ⟨flags, isFlags⟩ : ∃ flags, flags = (List.range recordCount).map (bitAt words) := ⟨_, rfl⟩
  have length : flags.length = recordCount := by rw [isFlags]; simp
  have expanded : (bitmap words).toFlags recordCount = .ok flags := by
    unfold toFlags
    simp only
    rw [ensure_bind_of_true (by simpa using sized), ensure_bind_of_true, isFlags]
    · rfl
    · refine List.all_eq_true.mpr fun ordinal _ => ?_
      by_cases below : ordinal < recordCount
      · simp [below]
      · rw [bitAt_of_unusedBitsClear sized clear (by omega)]
        simp
  have words_eq : bitmapWords flags = words := by
    refine bitmap_ext (by rw [bitmapWords_length, length, sized]) fun ordinal => ?_
    rw [bitAt_bitmapWords, List.getD_eq_getElem?_getD, isFlags, List.getElem?_map]
    by_cases below : ordinal < recordCount
    · rw [List.getElem?_range below]
      rfl
    · rw [bitAt_of_unusedBitsClear sized clear (by omega), List.getElem?_eq_none (by simpa using below)]
      rfl
  have runs_eq : (ordinalRanges flags).length = runs := by
    rw [countRuns_eq_ok (by have := runs_le_wordMax short; omega), Nat.zero_add,
      bitsOf_of_unusedBitsClear sized clear, runStarts_append, runStarts_replicate_false, ← isFlags,
      Nat.add_zero, Except.ok.injEq] at counted
    rw [ordinalRanges_length, counted]
  refine ⟨flags, expanded, length, ?_⟩
  unfold fromFlags
  simp only
  rw [words_eq, ← sized]
  have some : ¬ (ordinalRanges flags).isEmpty = true := by
    intro empty
    rw [List.isEmpty_iff.mp empty] at runs_eq
    simp only [List.length_nil] at runs_eq
    omega
  rw [if_neg some, if_neg]
  rw [runs_eq, saturatingMul_le_iff (by rw [← length]; exact divCeil_mul_le (by omega))]
  omega

/-- **An accepted encoding is the one of the flags it expands to.** -/
theorem fromFlags_toFlags {encoding : ReleaseEncoding}
    (canonical : encoding.validateCanonical recordCount = .ok released) :
    ∃ flags, encoding.toFlags recordCount = .ok flags ∧ flags.length = recordCount ∧
      fromFlags flags = encoding := by
  simp only [validateCanonical, bind_eq_ok, ensure_eq_ok, orError_eq_ok,
    checkedMul_eq_some] at canonical
  obtain ⟨_, -, _, ⟨rfl, -⟩, accepted⟩ := canonical
  cases encoding with
  | ranges found => exact fromFlags_toFlags_ranges isWord accepted
  | bitmap words => exact fromFlags_toFlags_bitmap isWord accepted

end Accepted

/-- **The encoding of release sets is canonical and lossless.** The writer's encoding of some flags
is accepted with the number of set flags and expands to the flags; an accepted encoding is the
writer's encoding of the flags it expands to; and the runs of a bitmap counted by words are the
ordinals at which a run of set bits starts.

`from_flags` holds its ranges in a vector of 16 bytes a range and record counts are words: those are
the bounds. -/
theorem fromFlags_canonical :
    (∀ flags : List Bool, flags ≠ [] → flags.length ≤ wordMax →
      (ordinalRanges flags).length * 16 ≤ wordMax →
        (fromFlags flags).validateCanonical flags.length = .ok (flags.countP id) ∧
          (fromFlags flags).toFlags flags.length = .ok flags) ∧
    (∀ (encoding : ReleaseEncoding) (recordCount released : Nat), recordCount ≤ wordMax →
      encoding.validateCanonical recordCount = .ok released →
        ∃ flags, encoding.toFlags recordCount = .ok flags ∧ flags.length = recordCount ∧
          fromFlags flags = encoding) ∧
    (∀ (words : List (BitVec 64)) (recordCount : Nat), recordCount ≤ wordMax →
      divCeil recordCount 64 = words.length →
        countRuns 0 false words =
          .ok ((List.range (words.length * 64)).countP fun ordinal =>
            bitAt words ordinal && !(if ordinal = 0 then false else bitAt words (ordinal - 1)))) := by
  refine ⟨fun flags nonempty isWord countable => ⟨validateCanonical_fromFlags nonempty isWord
    countable, toFlags_fromFlags isWord⟩, fun encoding recordCount released isWord canonical =>
    fromFlags_toFlags isWord canonical, fun words recordCount isWord sized => ?_⟩
  refine countRuns_eq ?_
  rw [← sized]
  unfold divCeil wordMax at *
  omega

/-- Every second of seven flags is a bitmap, and a run across two words is one run. -/
theorem fromFlags_canonical_sample :
    let flags := [true, false, true, false, true, false, true]
    ((fromFlags flags).validateCanonical 7 = .ok 4 ∧ (fromFlags flags).toFlags 7 = .ok flags) ∧
      (∃ found, (bitmap [0x55#64]).toFlags 7 = .ok found ∧ found.length = 7 ∧
        fromFlags found = bitmap [0x55#64]) ∧
      countRuns 0 false [1#64 <<< 63, 1#64] =
        .ok ((List.range 128).countP fun ordinal => bitAt [1#64 <<< 63, 1#64] ordinal &&
          !(if ordinal = 0 then false else bitAt [1#64 <<< 63, 1#64] (ordinal - 1))) :=
  ⟨fromFlags_canonical.1 _ (by decide) (by decide) (by decide),
    fromFlags_canonical.2.1 _ 7 4 (by decide) (by decide),
    fromFlags_canonical.2.2 [1#64 <<< 63, 1#64] 128 (by decide) (by decide)⟩

end ReleaseEncoding

end Camus
