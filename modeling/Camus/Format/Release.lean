/-
**Release state of a segment in a checkpoint.**

A checkpoint stores which records of a segment are released either as ranges of ordinals or as a
bitmap, whichever is smaller, so that every set of flags has one encoding.

* `ReleaseEncoding.validateCanonical_fromFlags`: the encoding the writer chooses is accepted.
* `ReleaseEncoding.toFlags_fromFlags`: it expands to the flags it was made from.
-/

import Camus.Format.Manifest

namespace Camus

open Checked Codec Result

variable {previous : Bool} {words : List (BitVec 64)} {index ordinal recordCount released : Nat}
  {opened previousEnd : Option Nat}

/-- The release state of a segment: ranges of ordinals, or one bit per ordinal. -/
inductive ReleaseEncoding where
  | ranges (ranges : List SequenceRange)
  | bitmap (words : List (BitVec 64))
deriving DecidableEq

/-- Multiplication that stops at the greatest word. -/
def saturatingMul (left right : Nat) : Nat := min (left * right) wordMax

/-- The maximal runs of set flags from ordinal `index` on, `opened` being the start of the run that
reaches `index`. -/
def ordinalRangesFrom : Nat → Option Nat → List Bool → List SequenceRange
  | _, none, [] => []
  | index, some start, [] => [{ start := start, len := index - start }]
  | index, none, false :: rest => ordinalRangesFrom (index + 1) none rest
  | index, none, true :: rest => ordinalRangesFrom (index + 1) (some index) rest
  | index, some start, true :: rest => ordinalRangesFrom (index + 1) (some start) rest
  | index, some start, false :: rest =>
    { start := start, len := index - start } :: ordinalRangesFrom (index + 1) none rest

/-- The maximal runs of set flags. -/
def ordinalRanges (flags : List Bool) : List SequenceRange := ordinalRangesFrom 0 none flags

/-- Sets the bit of one ordinal if it is released. -/
def setBit (words : List (BitVec 64)) (flag : Bool × Nat) : List (BitVec 64) :=
  if flag.1 then words.modify (flag.2 / 64) fun word => word ||| (1#64 <<< (flag.2 % 64)) else words

/-- One bit per flag, least significant first. -/
def bitmapWords (flags : List Bool) : List (BitVec 64) :=
  flags.zipIdx.foldl setBit (List.replicate (divCeil flags.length 64) 0#64)

/-- The bit of an ordinal. -/
def bitAt (words : List (BitVec 64)) (ordinal : Nat) : Bool :=
  match words[ordinal / 64]? with
  | some word => word.getLsbD (ordinal % 64)
  | none => false

/-- The number of set bits. -/
def countOnes (word : BitVec 64) : Nat := (List.range 64).countP word.getLsbD

/-- Sets the flags of one range. -/
def fillRange (flags : List Bool) (start finish : Nat) : List Bool :=
  flags.mapIdx fun ordinal released => released || (start ≤ ordinal && ordinal ≤ finish)

/-- The bits of a word that start a run, given whether the bit before it was set. -/
def runStartBits (previousOne : Bool) (word : BitVec 64) : BitVec 64 :=
  let starts := word &&& ~~~(word <<< 1)
  if previousOne then starts &&& ~~~1#64 else starts

/-- The number of runs of a bitmap, word by word. -/
def countRuns : Nat → Bool → List (BitVec 64) → FormatResult Nat
  | rangeCount, _, [] => .ok rangeCount
  | rangeCount, previousOne, word :: rest => do
    let next ← orError "range count overflows u64"
      (checkedAdd rangeCount (countOnes (runStartBits previousOne word)))
    countRuns next (word.getLsbD 63) rest

namespace ReleaseEncoding

/-- The smaller encoding of some flags. -/
def fromFlags (flags : List Bool) : ReleaseEncoding :=
  let found := ordinalRanges flags
  if found.isEmpty then .ranges []
  else
    let words := bitmapWords flags
    if saturatingMul found.length 16 ≤ saturatingMul words.length 8 then .ranges found
    else .bitmap words

/-- The number of released ordinals. -/
def releasedCount : ReleaseEncoding → FormatResult Nat
  | .ranges found => tryFold (fun total range => do
      let _ ← range.finish
      orError "released_count overflows u64" (checkedAdd total range.len)) 0 found
  | .bitmap words => tryFold (fun total word =>
      orError "released_count overflows u64" (checkedAdd total (countOnes word))) 0 words

/-- The checks of a range encoding. -/
def validateRangeEncoding (found : List SequenceRange) (recordCount bitmapBytes : Nat) :
    FormatResult Nat := do
  validateRanges found true
  let _ ← tryMap (fun range : SequenceRange => do
    let finish ← range.finish
    ensure (finish < recordCount) "release range exceeds record count") found
  let released ← releasedCount (.ranges found)
  let rangeCount ← orError "range count does not fit u64" (toWord found.length)
  let rangeBytes ← orError "range byte length overflows u64" (checkedMul rangeCount 16)
  ensure (found.isEmpty || rangeBytes ≤ bitmapBytes)
    "checkpoint release encoding is not canonical"
  return released

/-- The bits beyond the last record are clear. -/
def unusedBitsClear (words : List (BitVec 64)) (recordCount : Nat) : Bool :=
  let finalBits := recordCount % 64
  finalBits = 0 ||
    match words.getLast? with
    | some word => word &&& ~~~(BitVec.allOnes 64 >>> (64 - finalBits)) = 0#64
    | none => true

/-- The checks of a bitmap encoding. -/
def validateBitmapEncoding (words : List (BitVec 64)) (recordCount bitmapBytes : Nat) :
    FormatResult Nat := do
  ensure (divCeil recordCount 64 = words.length) "bitmap word count mismatch"
  ensure (unusedBitsClear words recordCount) "bitmap has nonzero unused high bits"
  let released ← releasedCount (.bitmap words)
  ensure (released ≠ 0) "checkpoint release encoding is not canonical"
  let rangeCount ← countRuns 0 false words
  let rangeBytes ← orError "range byte length overflows u64" (checkedMul rangeCount 16)
  ensure (bitmapBytes < rangeBytes) "checkpoint release encoding is not canonical"
  return released

/-- Accepts an encoding that is the one of its flags, and counts the released ordinals. -/
def validateCanonical (encoding : ReleaseEncoding) (recordCount : Nat) : FormatResult Nat := do
  ensure (recordCount ≠ 0) "record count must be nonzero"
  let bitmapBytes ← orError "bitmap byte length overflows u64"
    (checkedMul (divCeil recordCount 64) 8)
  match encoding with
  | .ranges found => validateRangeEncoding found recordCount bitmapBytes
  | .bitmap words => validateBitmapEncoding words recordCount bitmapBytes

/-- The flags an encoding stands for. -/
def toFlags (encoding : ReleaseEncoding) (recordCount : Nat) : FormatResult (List Bool) :=
  match encoding with
  | .ranges found => do
    validateRanges found true
    tryFold (fun flags range => do
      let finish ← range.finish
      ensure (finish < recordCount) "release range exceeds record count"
      return fillRange flags range.start finish) (List.replicate recordCount false) found
  | .bitmap words => do
    ensure (divCeil recordCount 64 = words.length) "bitmap word count mismatch"
    ensure
      ((List.range (words.length * 64)).all fun ordinal =>
        ordinal < recordCount || !bitAt words ordinal)
      "bitmap has nonzero unused high bits"
    return (List.range recordCount).map (bitAt words)

end ReleaseEncoding

/-! ### Runs of flags -/

/-- The number of runs of set flags, given whether the flag before them was set. -/
def runStarts : Bool → List Bool → Nat
  | _, [] => 0
  | previous, flag :: rest => (if flag && !previous then 1 else 0) + runStarts flag rest

theorem runStarts_append (previous : Bool) (left right : List Bool) :
    runStarts previous (left ++ right) =
      runStarts previous left + runStarts (left.getLastD previous) right := by
  induction left generalizing previous with
  | nil => simp [runStarts]
  | cons flag rest ih =>
    have last : (flag :: rest).getLastD previous = rest.getLastD flag := List.getLastD_cons ..
    rw [List.cons_append, runStarts, runStarts, ih, last, Nat.add_assoc]

theorem runStarts_replicate_false (previous : Bool) (count : Nat) :
    runStarts previous (List.replicate count false) = 0 := by
  induction count generalizing previous with
  | zero => rfl
  | succ count ih => simp [List.replicate_succ, runStarts, ih]

/-- Runs counted by position. -/
theorem runStarts_map_range (previous : Bool) (flag : Nat → Bool) (count : Nat) :
    runStarts previous ((List.range count).map flag) =
      (List.range count).countP fun index =>
        flag index && !(if index = 0 then previous else flag (index - 1)) := by
  induction count with
  | zero => rfl
  | succ count ih =>
    have last : ((List.range count).map flag).getLastD previous =
        if count = 0 then previous else flag (count - 1) := by
      cases count with
      | zero => rfl
      | succ count => simp [List.range_succ]
    rw [List.range_succ, List.map_append, runStarts_append, ih, List.countP_append, last]
    simp [runStarts, List.countP_cons]

theorem ordinalRangesFrom_length (index : Nat) (opened : Option Nat) (flags : List Bool) :
    (ordinalRangesFrom index opened flags).length =
      opened.toList.length + runStarts opened.isSome flags := by
  fun_induction ordinalRangesFrom index opened flags <;> simp_all [runStarts]
  omega

/-- The ranges are sorted, disjoint, not adjacent and made of words. -/
theorem validateRangesAfter_ordinalRangesFrom {flags : List Bool}
    (bounded : index + flags.length ≤ wordMax)
    (apart : ∀ previous, previousEnd = some previous → previous + 2 ≤ opened.getD index)
    (begun : ∀ start, opened = some start → start < index) :
    validateRangesAfter previousEnd (ordinalRangesFrom index opened flags) = .ok () := by
  induction flags generalizing index opened previousEnd with
  | nil =>
    cases opened with
    | none => rfl
    | some start =>
      have before := begun start rfl
      have room : index ≤ wordMax := by simpa using bounded
      exact validateRangesAfter_cons.mpr ⟨by simp; omega, by simp; omega, apart, rfl⟩
  | cons flag rest ih =>
    rw [List.length_cons] at bounded
    cases opened with
    | none =>
      cases flag with
      | false =>
        refine ih (by omega) ?_ (by simp)
        intro previous same
        have := apart previous same
        simp only [Option.getD_none] at this ⊢
        omega
      | true => exact ih (by omega) apart (by simp)
    | some start =>
      have before := begun start rfl
      cases flag with
      | false =>
        refine validateRangesAfter_cons.mpr ⟨by simp; omega, by simp; omega, apart, ?_⟩
        refine ih (by omega) ?_ (by simp)
        simp only [Option.some.injEq, Option.getD_none]
        omega
      | true =>
        refine ih (by omega) apart ?_
        rintro _ ⟨⟩
        omega

/-- The ordinals a range names. -/
def SequenceRange.Contains (range : SequenceRange) (ordinal : Nat) : Prop :=
  range.start ≤ ordinal ∧ ordinal < range.start + range.len

instance (range : SequenceRange) (ordinal : Nat) : Decidable (range.Contains ordinal) :=
  inferInstanceAs (Decidable (_ ∧ _))

/-- The ranges name exactly the ordinals whose flag is set. -/
theorem exists_contains_ordinalRangesFrom {flags : List Bool}
    (begun : ∀ start, opened = some start → start < index) :
    (∃ range ∈ ordinalRangesFrom index opened flags, range.Contains ordinal) ↔
      (∃ start, opened = some start ∧ start ≤ ordinal ∧ ordinal < index) ∨
        (index ≤ ordinal ∧ flags[ordinal - index]? = some true) := by
  induction flags generalizing index opened with
  | nil =>
    cases opened with
    | none => simp [ordinalRangesFrom]
    | some start =>
      have before := begun start rfl
      simp only [ordinalRangesFrom, List.mem_singleton, exists_eq_left, SequenceRange.Contains,
        Option.some.injEq, exists_eq_left', List.getElem?_nil, reduceCtorEq, and_false, or_false]
      omega
  | cons flag rest ih =>
    have shifted : index ≤ ordinal ∧ (flag :: rest)[ordinal - index]? = some true ↔
        (ordinal = index ∧ flag = true) ∨
          (index + 1 ≤ ordinal ∧ rest[ordinal - (index + 1)]? = some true) := by
      rcases Nat.lt_trichotomy ordinal index with below | rfl | above
      · constructor <;> intro shape <;> omega
      · simp
      · have step : ordinal - index = (ordinal - (index + 1)) + 1 := by omega
        rw [step, List.getElem?_cons_succ]
        have apart : ordinal ≠ index := by omega
        simp [apart, above.le, Nat.succ_le_of_lt above]
    rw [shifted]
    cases opened with
    | none =>
      cases flag with
      | false =>
        rw [ordinalRangesFrom, ih (by simp)]
        simp
      | true =>
        rw [ordinalRangesFrom, ih (by simp)]
        simp only [Option.some.injEq, exists_eq_left', reduceCtorEq, false_and, exists_const,
          false_or, and_true]
        grind
    | some start =>
      have before := begun start rfl
      cases flag with
      | false =>
        have later : (∃ range ∈ ordinalRangesFrom (index + 1) none rest, range.Contains ordinal) ↔ _ :=
          ih (by simp)
        rw [ordinalRangesFrom]
        simp only [List.mem_cons, exists_eq_or_imp, later]
        simp only [SequenceRange.Contains, Option.some.injEq, exists_eq_left', reduceCtorEq,
          false_and, exists_const, false_or, and_false]
        grind
      | true =>
        rw [ordinalRangesFrom, ih (by rintro _ ⟨⟩; omega)]
        simp only [Option.some.injEq, exists_eq_left', and_true]
        grind

/-- The ranges name as many ordinals as there are set flags. -/
theorem sum_len_ordinalRangesFrom {flags : List Bool}
    (begun : ∀ start, opened = some start → start < index) :
    ((ordinalRangesFrom index opened flags).map (·.len)).sum =
      index - opened.getD index + flags.countP id := by
  induction flags generalizing index opened with
  | nil => cases opened <;> simp [ordinalRangesFrom]
  | cons flag rest ih =>
    cases opened with
    | none =>
      cases flag with
      | false => rw [ordinalRangesFrom, ih (by simp)]; simp
      | true => rw [ordinalRangesFrom, ih (by simp)]; simp; omega
    | some start =>
      have before := begun start rfl
      cases flag with
      | false => rw [ordinalRangesFrom, List.map_cons, List.sum_cons, ih (by simp)]; simp
      | true =>
        rw [ordinalRangesFrom, ih (by rintro _ ⟨⟩; omega)]
        simp
        omega

/-! ### Bits of a bitmap -/

/-- The bits of some words, in order. -/
def bitsOf (words : List (BitVec 64)) : List Bool :=
  words.flatMap fun word => (List.range 64).map word.getLsbD

theorem bitsOf_cons (word : BitVec 64) (rest : List (BitVec 64)) :
    bitsOf (word :: rest) = (List.range 64).map word.getLsbD ++ bitsOf rest := rfl

theorem bitsOf_length (words : List (BitVec 64)) : (bitsOf words).length = words.length * 64 := by
  induction words with
  | nil => rfl
  | cons word rest ih =>
    rw [bitsOf_cons, List.length_append, ih]
    simp
    omega

theorem bitAt_cons (word : BitVec 64) (rest : List (BitVec 64)) (ordinal : Nat) :
    bitAt (word :: rest) ordinal =
      if ordinal < 64 then word.getLsbD ordinal else bitAt rest (ordinal - 64) := by
  unfold bitAt
  split_ifs with first
  · have quotient : ordinal / 64 = 0 := by omega
    have remainder : ordinal % 64 = ordinal := by omega
    rw [quotient, remainder]
    rfl
  · have quotient : ordinal / 64 = (ordinal - 64) / 64 + 1 := by omega
    have remainder : ordinal % 64 = (ordinal - 64) % 64 := by omega
    rw [quotient, remainder, List.getElem?_cons_succ]

theorem bitsOf_eq_map (words : List (BitVec 64)) :
    bitsOf words = (List.range (words.length * 64)).map (bitAt words) := by
  induction words with
  | nil => rfl
  | cons word rest ih =>
    have split : (word :: rest).length * 64 = 64 + rest.length * 64 := by
      rw [List.length_cons]
      omega
    have head : (List.range 64).map word.getLsbD =
        (List.range 64).map (bitAt (word :: rest)) :=
      List.map_congr_left fun ordinal member => by
        rw [bitAt_cons, if_pos (List.mem_range.mp member)]
    have tail : bitAt rest = bitAt (word :: rest) ∘ fun ordinal => 64 + ordinal := by
      funext ordinal
      rw [Function.comp_apply, bitAt_cons, if_neg (by omega)]
      congr 1
      omega
    rw [bitsOf_cons, ih, split, List.range_add, List.map_append, List.map_map, head, tail]

theorem setBit_length (words : List (BitVec 64)) (flag : Bool × Nat) :
    (setBit words flag).length = words.length := by
  unfold setBit
  split_ifs
  · exact List.length_modify _ _ _
  · rfl

theorem bitAt_setBit {flag : Bool × Nat} (inside : flag.2 < words.length * 64) :
    bitAt (setBit words flag) ordinal = (bitAt words ordinal || (flag.1 && flag.2 = ordinal)) := by
  obtain ⟨released, index⟩ := flag
  unfold setBit
  split_ifs with set
  · simp only at set inside ⊢
    subst set
    unfold bitAt
    rw [List.getElem?_modify]
    by_cases same : index / 64 = ordinal / 64
    · have found : ordinal / 64 < words.length := by omega
      rw [List.getElem?_eq_getElem found, same]
      simp only [if_true, Option.map_eq_map, Option.map_some, BitVec.getLsbD_or, Bool.true_and]
      congr 1
      rw [BitVec.getLsbD_shiftLeft, BitVec.getLsbD_one]
      have small : ordinal % 64 < 64 := by omega
      by_cases equal : index = ordinal
      · subst equal
        simp [small]
      · have apart : index % 64 ≠ ordinal % 64 := by omega
        simp only [small, equal, decide_false, decide_true, Bool.true_and]
        simp
        omega
    · have apart : index ≠ ordinal := by
        rintro rfl
        exact same rfl
      simp [same, apart]
  · simp only [Bool.not_eq_true] at set
    simp [set]

theorem foldl_setBit_length (flags : List (Bool × Nat)) (words : List (BitVec 64)) :
    (flags.foldl setBit words).length = words.length := by
  induction flags generalizing words with
  | nil => rfl
  | cons flag rest ih => rw [List.foldl_cons, ih, setBit_length]

theorem bitAt_foldl_setBit {flags : List (Bool × Nat)}
    (inside : ∀ flag ∈ flags, flag.2 < words.length * 64) :
    bitAt (flags.foldl setBit words) ordinal =
      (bitAt words ordinal || flags.any fun flag => flag.1 && flag.2 = ordinal) := by
  induction flags generalizing words with
  | nil => simp
  | cons flag rest ih =>
    have kept : ∀ later ∈ rest, later.2 < (setBit words flag).length * 64 := by
      intro later member
      rw [setBit_length]
      exact inside later (List.mem_cons_of_mem _ member)
    rw [List.foldl_cons, ih kept, bitAt_setBit (inside flag List.mem_cons_self), List.any_cons,
      Bool.or_assoc]

theorem le_divCeil_mul (count : Nat) : count ≤ divCeil count 64 * 64 := by
  unfold divCeil
  omega

theorem bitmapWords_length (flags : List Bool) :
    (bitmapWords flags).length = divCeil flags.length 64 := by
  rw [bitmapWords, foldl_setBit_length, List.length_replicate]

/-- The bit of an ordinal is its flag. -/
theorem bitAt_bitmapWords (flags : List Bool) (ordinal : Nat) :
    bitAt (bitmapWords flags) ordinal = flags.getD ordinal false := by
  have clear : bitAt (List.replicate (divCeil flags.length 64) 0#64) ordinal = false := by
    unfold bitAt
    rw [List.getElem?_replicate]
    split_ifs <;> simp
  rw [bitmapWords, bitAt_foldl_setBit, clear, Bool.false_or]
  · rw [Bool.eq_iff_iff, List.any_eq_true]
    simp only [Bool.and_eq_true, decide_eq_true_eq, Prod.exists, List.mem_zipIdx_iff_getElem?,
      List.getD_eq_getElem?_getD]
    constructor
    · rintro ⟨flag, _, found, rfl, rfl⟩
      simp [found]
    · intro set
      refine ⟨true, ordinal, ?_, rfl, rfl⟩
      cases found : flags[ordinal]? with
      | none => simp [found] at set
      | some flag => simpa [found] using set
  · intro flag member
    obtain ⟨-, bound, -⟩ := List.mem_zipIdx member
    have := le_divCeil_mul flags.length
    rw [List.length_replicate]
    omega

/-- The bits of a bitmap are its flags, filled up with clear bits. -/
theorem bitsOf_bitmapWords (flags : List Bool) :
    bitsOf (bitmapWords flags) =
      flags ++ List.replicate (divCeil flags.length 64 * 64 - flags.length) false := by
  have enough := le_divCeil_mul flags.length
  refine List.ext_getElem? fun ordinal => ?_
  rw [bitsOf_eq_map, bitmapWords_length, List.getElem?_map, List.getElem?_append,
    List.getElem?_replicate]
  by_cases inside : ordinal < flags.length
  · rw [if_pos inside, List.getElem?_range (by omega), Option.map_some, bitAt_bitmapWords,
      List.getD_eq_getElem?_getD, List.getElem?_eq_getElem inside]
    rfl
  · rw [if_neg inside]
    by_cases padded : ordinal < divCeil flags.length 64 * 64
    · rw [List.getElem?_range padded, Option.map_some, bitAt_bitmapWords, if_pos (by omega),
        List.getD_eq_getElem?_getD, List.getElem?_eq_none (by omega)]
      rfl
    · rw [List.getElem?_eq_none (by simpa using padded), if_neg (by omega)]
      rfl

theorem getLsbD_runStartBits {word : BitVec 64} (small : index < 64) :
    (runStartBits previous word).getLsbD index =
      (word.getLsbD index && !(if index = 0 then previous else word.getLsbD (index - 1))) := by
  have one : (~~~1#64).getLsbD index = decide (index ≠ 0) := by
    rw [BitVec.getLsbD_not, BitVec.getLsbD_one]
    simp [small]
  have starts : (word &&& ~~~(word <<< 1)).getLsbD index =
      (word.getLsbD index && !(if index = 0 then false else word.getLsbD (index - 1))) := by
    rw [BitVec.getLsbD_and, BitVec.getLsbD_not, BitVec.getLsbD_shiftLeft]
    cases index with
    | zero => simp
    | succ index => simp only [small]; simp
  unfold runStartBits
  cases previous with
  | false => exact starts
  | true =>
    simp only [if_true]
    rw [BitVec.getLsbD_and, one, starts]
    cases index <;> simp

/-- The run-start bits of a word are the run starts of its bits. -/
theorem countOnes_runStartBits (previous : Bool) (word : BitVec 64) :
    countOnes (runStartBits previous word) =
      runStarts previous ((List.range 64).map word.getLsbD) := by
  rw [runStarts_map_range, countOnes]
  refine List.countP_congr fun index member => ?_
  rw [getLsbD_runStartBits (List.mem_range.mp member)]

theorem countRuns_eq_ok {rangeCount : Nat}
    (bounded : rangeCount + runStarts previous (bitsOf words) ≤ wordMax) :
    countRuns rangeCount previous words =
      .ok (rangeCount + runStarts previous (bitsOf words)) := by
  induction words generalizing rangeCount previous with
  | nil => rfl
  | cons word rest ih =>
    have last : ((List.range 64).map word.getLsbD).getLastD previous = word.getLsbD 63 := by
      simp [List.range_succ]
    rw [bitsOf_cons, runStarts_append, last] at bounded ⊢
    rw [countRuns, countOnes_runStartBits, checkedAdd_of_le (by omega)]
    show countRuns _ _ _ = _
    rw [ih (by omega), Nat.add_assoc]

theorem releasedCount_bitmap (bounded : (bitsOf words).countP id ≤ wordMax) :
    ReleaseEncoding.releasedCount (.bitmap words) = .ok ((bitsOf words).countP id) := by
  have general : ∀ total, total + (bitsOf words).countP id ≤ wordMax →
      tryFold (fun total word => orError "released_count overflows u64"
        (checkedAdd total (countOnes word))) total words =
          .ok (total + (bitsOf words).countP id) := by
    clear bounded
    induction words with
    | nil => simp [bitsOf]
    | cons word rest ih =>
      intro total bounded
      have ones : ((List.range 64).map word.getLsbD).countP id = countOnes word := by
        rw [List.countP_map]
        rfl
      rw [bitsOf_cons, List.countP_append, ones] at bounded ⊢
      rw [tryFold_cons, checkedAdd_of_le (by omega)]
      show tryFold _ _ _ = _
      rw [ih _ (by omega), Nat.add_assoc]
  have whole := general 0 (by omega)
  rwa [Nat.zero_add] at whole

theorem releasedCount_ranges {found : List SequenceRange}
    (finishes : ∀ range ∈ found, ∃ finish, range.finish = .ok finish)
    (bounded : (found.map (·.len)).sum ≤ wordMax) :
    ReleaseEncoding.releasedCount (.ranges found) = .ok (found.map (·.len)).sum := by
  have general : ∀ total, total + (found.map (·.len)).sum ≤ wordMax →
      tryFold (fun total (range : SequenceRange) => do
        let _ ← range.finish
        orError "released_count overflows u64" (checkedAdd total range.len)) total found =
          .ok (total + (found.map (·.len)).sum) := by
    clear bounded
    induction found with
    | nil => simp
    | cons range rest ih =>
      intro total bounded
      obtain ⟨finish, finished⟩ := finishes range List.mem_cons_self
      rw [List.map_cons, List.sum_cons] at bounded ⊢
      rw [tryFold_cons, finished, ok_bind, checkedAdd_of_le (by omega)]
      show tryFold _ _ _ = _
      rw [ih (fun later member => finishes later (List.mem_cons_of_mem _ member)) _ (by omega),
        Nat.add_assoc]
  have whole := general 0 (by omega)
  rwa [Nat.zero_add] at whole

theorem unusedBitsClear_bitmapWords (flags : List Bool) :
    ReleaseEncoding.unusedBitsClear (bitmapWords flags) flags.length = true := by
  unfold ReleaseEncoding.unusedBitsClear
  by_cases aligned : flags.length % 64 = 0
  · simp [aligned]
  simp only [aligned, decide_false, Bool.false_or]
  cases found : (bitmapWords flags).getLast? with
  | none => rfl
  | some word =>
    simp only [decide_eq_true_eq]
    refine BitVec.eq_of_getLsbD_eq fun bit small => ?_
    rw [BitVec.getLsbD_and, BitVec.getLsbD_not, BitVec.getLsbD_ushiftRight,
      BitVec.getLsbD_allOnes, BitVec.getLsbD_zero]
    by_cases used : bit < flags.length % 64
    · have shifted : 64 - flags.length % 64 + bit < 64 := by omega
      simp [shifted]
    · have position := bitAt_bitmapWords flags ((divCeil flags.length 64 - 1) * 64 + bit)
      rw [List.getLast?_eq_getElem?, bitmapWords_length] at found
      have beyond : flags.length ≤ (divCeil flags.length 64 - 1) * 64 + bit := by
        unfold divCeil
        omega
      have quotient : ((divCeil flags.length 64 - 1) * 64 + bit) / 64 =
          divCeil flags.length 64 - 1 := by omega
      have remainder : ((divCeil flags.length 64 - 1) * 64 + bit) % 64 = bit := by omega
      rw [bitAt, quotient, remainder, found, List.getD_eq_getElem?_getD,
        List.getElem?_eq_none beyond] at position
      simp only [Option.getD_none] at position
      rw [position, Bool.false_and]

/-! ### The encoding of some flags -/

section Flags

variable {flags : List Bool}

theorem ordinalRanges_finish (bounded : flags.length ≤ wordMax) {range : SequenceRange}
    (member : range ∈ ordinalRanges flags) :
    range.finish = .ok (range.start + (range.len - 1)) := by
  have valid : validateRangesAfter none (ordinalRanges flags) = .ok () :=
    validateRangesAfter_ordinalRangesFrom (by omega) (by simp) (by simp)
  obtain ⟨nonzero, fits⟩ := validateRangesAfter_bounds valid range member
  exact SequenceRange.finish_eq_ok.mpr ⟨nonzero, rfl, fits⟩

theorem ordinalRanges_contains :
    (∃ range ∈ ordinalRanges flags, range.Contains ordinal) ↔ flags[ordinal]? = some true := by
  rw [ordinalRanges, exists_contains_ordinalRangesFrom (by simp)]
  simp

theorem ordinalRanges_inside (bounded : flags.length ≤ wordMax) {range : SequenceRange}
    (member : range ∈ ordinalRanges flags) : range.start + (range.len - 1) < flags.length := by
  have finished := SequenceRange.finish_eq_ok.mp (ordinalRanges_finish bounded member)
  have last : flags[range.start + (range.len - 1)]? = some true :=
    ordinalRanges_contains.mp ⟨range, member, by unfold SequenceRange.Contains; omega⟩
  exact (List.getElem?_eq_some_iff.mp last).1

theorem ordinalRanges_length : (ordinalRanges flags).length = runStarts false flags := by
  rw [ordinalRanges, ordinalRangesFrom_length]
  simp

theorem sum_len_ordinalRanges :
    ((ordinalRanges flags).map (·.len)).sum = flags.countP id := by
  rw [ordinalRanges, sum_len_ordinalRangesFrom (by simp)]
  simp

theorem runStarts_le_countP (previous : Bool) (flags : List Bool) :
    runStarts previous flags ≤ flags.countP id := by
  induction flags generalizing previous with
  | nil => simp [runStarts]
  | cons flag rest ih =>
    have := ih flag
    rw [runStarts, List.countP_cons]
    cases flag <;> cases previous <;> simp at * <;> omega

theorem runStarts_bitsOf_bitmapWords :
    runStarts false (bitsOf (bitmapWords flags)) = runStarts false flags := by
  rw [bitsOf_bitmapWords, runStarts_append, runStarts_replicate_false, Nat.add_zero]

theorem countP_bitsOf_bitmapWords :
    (bitsOf (bitmapWords flags)).countP id = flags.countP id := by
  rw [bitsOf_bitmapWords, List.countP_append]
  simp

/-- Below the word limit the writer compares the exact sizes of the two encodings. -/
theorem saturatingMul_le_iff {count words : Nat} (bounded : words * 8 ≤ wordMax) :
    saturatingMul count 16 ≤ saturatingMul words 8 ↔ count * 16 ≤ words * 8 := by
  unfold saturatingMul
  unfold wordMax at *
  omega

theorem divCeil_mul_le (bounded : flags.length ≤ wordMax) :
    divCeil flags.length 64 * 8 ≤ wordMax := by
  unfold divCeil wordMax at *
  omega

theorem validateRangeEncoding_ordinalRanges (bounded : flags.length ≤ wordMax)
    (smaller : (ordinalRanges flags).isEmpty = true ∨
      (ordinalRanges flags).length * 16 ≤ divCeil flags.length 64 * 8) :
    ReleaseEncoding.validateRangeEncoding (ordinalRanges flags) flags.length
      (divCeil flags.length 64 * 8) = .ok (flags.countP id) := by
  have valid : validateRanges (ordinalRanges flags) true = .ok () := by
    have after : validateRangesAfter none (ordinalRanges flags) = .ok () :=
      validateRangesAfter_ordinalRangesFrom (by omega) (by simp) (by simp)
    simp [validateRanges, after]
  have inside : tryMap (fun range : SequenceRange => do
      let finish ← range.finish
      ensure (finish < flags.length) "release range exceeds record count")
        (ordinalRanges flags) = .ok ((ordinalRanges flags).map fun _ => ()) := by
    refine tryMap_eq_map _ _ fun range member => ?_
    rw [ordinalRanges_finish bounded member, ok_bind, ensure_eq_ok,
      decide_eq_true_eq]
    exact ordinalRanges_inside bounded member
  have ones : flags.countP id ≤ flags.length := List.countP_le_length
  have counted : ReleaseEncoding.releasedCount (.ranges (ordinalRanges flags)) =
      .ok (flags.countP id) := by
    rw [releasedCount_ranges (fun range member => ⟨_, ordinalRanges_finish bounded member⟩),
      sum_len_ordinalRanges]
    rw [sum_len_ordinalRanges]
    omega
  have short : (ordinalRanges flags).length * 16 ≤ wordMax := by
    have ceiling := divCeil_mul_le bounded
    rcases smaller with empty | fits
    · rw [List.isEmpty_iff.mp empty]
      simp
    · omega
  unfold ReleaseEncoding.validateRangeEncoding
  rw [valid, ok_bind, inside, ok_bind, counted, ok_bind,
    toWord_of_le (by omega), orError_some, ok_bind, checkedMul_of_le short]
  simpa using smaller

theorem validateBitmapEncoding_bitmapWords (bounded : flags.length ≤ wordMax)
    (countable : (ordinalRanges flags).length * 16 ≤ wordMax)
    (larger : divCeil flags.length 64 * 8 < (ordinalRanges flags).length * 16) :
    ReleaseEncoding.validateBitmapEncoding (bitmapWords flags) flags.length
      (divCeil flags.length 64 * 8) = .ok (flags.countP id) := by
  have ones : flags.countP id ≤ flags.length := List.countP_le_length
  have starts := runStarts_le_countP false flags
  rw [ordinalRanges_length] at larger countable
  have counted : ReleaseEncoding.releasedCount (.bitmap (bitmapWords flags)) =
      .ok (flags.countP id) := by
    rw [releasedCount_bitmap (by rw [countP_bitsOf_bitmapWords]; omega), countP_bitsOf_bitmapWords]
  have runs : countRuns 0 false (bitmapWords flags) = .ok (runStarts false flags) := by
    rw [countRuns_eq_ok (by rw [runStarts_bitsOf_bitmapWords]; omega),
      runStarts_bitsOf_bitmapWords, Nat.zero_add]
  have some : flags.countP id ≠ 0 := by omega
  unfold ReleaseEncoding.validateBitmapEncoding
  rw [counted, runs, unusedBitsClear_bitmapWords, bitmapWords_length, ok_bind,
    ok_bind, checkedMul_of_le (by omega)]
  simp [some, larger]

/-- **The writer's encoding is accepted**, with the number of set flags. -/
theorem ReleaseEncoding.validateCanonical_fromFlags (nonempty : flags ≠ [])
    (bounded : flags.length ≤ wordMax)
    (countable : (ordinalRanges flags).length * 16 ≤ wordMax) :
    (ReleaseEncoding.fromFlags flags).validateCanonical flags.length = .ok (flags.countP id) := by
  have nonzero : flags.length ≠ 0 := by simpa using nonempty
  have ceiling := divCeil_mul_le bounded
  unfold ReleaseEncoding.validateCanonical
  rw [checkedMul_of_le ceiling, ensure_bind_of_true (by simpa using nonzero),
    orError_some, ok_bind]
  unfold ReleaseEncoding.fromFlags
  by_cases empty : (ordinalRanges flags).isEmpty = true
  · rw [if_pos empty]
    have none : [] = ordinalRanges flags := (List.isEmpty_iff.mp empty).symm
    simp only
    rw [none]
    exact validateRangeEncoding_ordinalRanges bounded (.inl empty)
  · rw [if_neg empty]
    simp only
    rw [bitmapWords_length]
    by_cases smaller : (ordinalRanges flags).length * 16 ≤ divCeil flags.length 64 * 8
    · rw [if_pos ((saturatingMul_le_iff ceiling).mpr smaller)]
      exact validateRangeEncoding_ordinalRanges bounded (.inr smaller)
    · rw [if_neg (mt (saturatingMul_le_iff ceiling).mp smaller)]
      exact validateBitmapEncoding_bitmapWords bounded countable (by omega)

theorem foldl_fillRange_length (found : List SequenceRange) (start : List Bool) :
    (found.foldl (fun flags range => fillRange flags range.start (range.start + (range.len - 1)))
        start).length = start.length := by
  induction found generalizing start with
  | nil => rfl
  | cons range rest ih => rw [List.foldl_cons, ih, fillRange, List.length_mapIdx]

theorem foldl_fillRange_getElem? (found : List SequenceRange) (start : List Bool) (ordinal : Nat) :
    (found.foldl (fun flags range => fillRange flags range.start (range.start + (range.len - 1)))
        start)[ordinal]? =
      start[ordinal]?.map fun released => released || found.any fun range =>
        range.start ≤ ordinal && ordinal ≤ range.start + (range.len - 1) := by
  induction found generalizing start with
  | nil => simp
  | cons range rest ih =>
    rw [List.foldl_cons, ih, fillRange, List.getElem?_mapIdx, Option.map_map]
    congr 1
    funext released
    simp [Bool.or_assoc]

/-- Valid ranges expand to the flags of the ordinals they name. -/
theorem toFlags_ranges {found : List SequenceRange}
    (valid : validateRangesAfter none found = .ok ())
    (inside : ∀ range ∈ found, range.start + (range.len - 1) < recordCount) :
    ∃ flags, (ReleaseEncoding.ranges found).toFlags recordCount = .ok flags ∧
      flags.length = recordCount ∧
      ∀ ordinal, flags[ordinal]? = some true ↔ ∃ range ∈ found, range.Contains ordinal := by
  have bounds := validateRangesAfter_bounds valid
  have accepted : validateRanges found true = .ok () := by simp [validateRanges, valid]
  have expanded : (ReleaseEncoding.ranges found).toFlags recordCount =
      .ok (found.foldl (fun flags range =>
        fillRange flags range.start (range.start + (range.len - 1)))
          (List.replicate recordCount false)) := by
    unfold ReleaseEncoding.toFlags
    simp only
    rw [accepted, ok_bind]
    refine tryFold_eq_foldl _ _ _ fun flags range member => ?_
    obtain ⟨nonzero, fits⟩ := bounds range member
    rw [SequenceRange.finish_eq_ok.mpr ⟨nonzero, rfl, fits⟩, ok_bind,
      ensure_bind_of_true (by simpa using inside range member)]
    rfl
  refine ⟨_, expanded, ?_, fun ordinal => ?_⟩
  · rw [foldl_fillRange_length, List.length_replicate]
  · have named : (found.any fun range =>
        range.start ≤ ordinal && ordinal ≤ range.start + (range.len - 1)) = true ↔
          ∃ range ∈ found, range.Contains ordinal := by
      rw [List.any_eq_true]
      refine exists_congr fun range => and_congr_right fun member => ?_
      have := (bounds range member).1
      simp only [Bool.and_eq_true, decide_eq_true_eq, SequenceRange.Contains]
      omega
    rw [foldl_fillRange_getElem?, List.getElem?_replicate, ← named]
    by_cases below : ordinal < recordCount
    · simp [below]
    · rw [if_neg below]
      refine iff_of_false (by simp) fun some => ?_
      obtain ⟨range, member, contains⟩ := named.mp some
      have := inside range member
      unfold SequenceRange.Contains at contains
      omega

/-- Flags of one length that are set at the same ordinals are equal. -/
theorem flags_ext {left right : List Bool} (sized : left.length = right.length)
    (same : ∀ ordinal : Nat, left[ordinal]? = some true ↔ right[ordinal]? = some true) :
    left = right := by
  refine List.ext_getElem sized fun ordinal inLeft inRight => ?_
  have equal := same ordinal
  rw [List.getElem?_eq_getElem inLeft, List.getElem?_eq_getElem inRight, Option.some.injEq,
    Option.some.injEq] at equal
  exact Bool.eq_iff_iff.mpr equal

/-- The ranges of some flags expand to them. -/
theorem toFlags_ordinalRanges (bounded : flags.length ≤ wordMax) :
    (ReleaseEncoding.ranges (ordinalRanges flags)).toFlags flags.length = .ok flags := by
  have valid : validateRangesAfter none (ordinalRanges flags) = .ok () :=
    validateRangesAfter_ordinalRangesFrom (by omega) (by simp) (by simp)
  obtain ⟨expanded, isExpanded, sized, named⟩ :=
    toFlags_ranges valid fun range member => ordinalRanges_inside bounded member
  rw [isExpanded, flags_ext sized fun ordinal => (named ordinal).trans ordinalRanges_contains]

theorem toFlags_bitmapWords :
    (ReleaseEncoding.bitmap (bitmapWords flags)).toFlags flags.length = .ok flags := by
  unfold ReleaseEncoding.toFlags
  simp only
  rw [bitmapWords_length, ensure_bind_of_true (by simp), ensure_bind_of_true]
  · refine congrArg _ (List.ext_getElem? fun ordinal => ?_)
    rw [List.getElem?_map]
    by_cases inside : ordinal < flags.length
    · rw [List.getElem?_range inside, Option.map_some, bitAt_bitmapWords,
        List.getD_eq_getElem?_getD, List.getElem?_eq_getElem inside]
      rfl
    · rw [List.getElem?_eq_none (by simpa using inside), List.getElem?_eq_none (by omega)]
      rfl
  · rw [List.all_eq_true]
    intro ordinal _
    by_cases inside : ordinal < flags.length
    · simp [inside]
    · rw [bitAt_bitmapWords, List.getD_eq_getElem?_getD, List.getElem?_eq_none (by omega)]
      simp

/-- **The writer's encoding expands to the flags it was made from.** -/
theorem ReleaseEncoding.toFlags_fromFlags (bounded : flags.length ≤ wordMax) :
    (ReleaseEncoding.fromFlags flags).toFlags flags.length = .ok flags := by
  unfold ReleaseEncoding.fromFlags
  by_cases empty : (ordinalRanges flags).isEmpty = true
  · rw [if_pos empty]
    have none : [] = ordinalRanges flags := (List.isEmpty_iff.mp empty).symm
    rw [none]
    exact toFlags_ordinalRanges bounded
  · rw [if_neg empty]
    simp only
    split_ifs
    · exact toFlags_ordinalRanges bounded
    · exact toFlags_bitmapWords

end Flags

/-! ### What a canonical encoding counts -/

theorem sum_len_le_of_validateRangesAfter {found : List SequenceRange} {bound : Nat}
    (valid : validateRangesAfter previousEnd found = .ok ())
    (inside : ∀ range ∈ found, range.start + (range.len - 1) < bound)
    (before : ∀ previous, previousEnd = some previous → previous < bound) :
    (found.map (·.len)).sum + (previousEnd.map (· + 1)).getD 0 ≤ bound := by
  induction found generalizing previousEnd with
  | nil =>
    cases previousEnd with
    | none => simp
    | some previous =>
      have := before previous rfl
      simp only [List.map_nil, List.sum_nil, Option.map_some, Option.getD_some]
      omega
  | cons range rest ih =>
    obtain ⟨nonzero, -, order, valid⟩ := validateRangesAfter_cons.mp valid
    have later := ih valid (fun other member => inside other (List.mem_cons_of_mem _ member))
      (by simpa using inside range List.mem_cons_self)
    simp only [Option.map_some, Option.getD_some] at later
    rw [List.map_cons, List.sum_cons]
    cases previousEnd with
    | none =>
      simp only [Option.map_none, Option.getD_none]
      omega
    | some previous =>
      have := order previous rfl
      simp only [Option.map_some, Option.getD_some]
      omega

/-- The bits beyond the last record of a checked bitmap are clear. -/
theorem bitAt_of_unusedBitsClear (sized : divCeil recordCount 64 = words.length)
    (clear : ReleaseEncoding.unusedBitsClear words recordCount = true)
    (beyond : recordCount ≤ ordinal) : bitAt words ordinal = false := by
  unfold bitAt
  by_cases inside : ordinal < words.length * 64
  · have aligned : recordCount % 64 ≠ 0 := by
      unfold divCeil at sized
      omega
    have quotient : ordinal / 64 = words.length - 1 := by
      unfold divCeil at sized
      omega
    have high : recordCount % 64 ≤ ordinal % 64 := by
      unfold divCeil at sized
      omega
    unfold ReleaseEncoding.unusedBitsClear at clear
    simp only [aligned, decide_false, Bool.false_or] at clear
    rw [quotient]
    rw [List.getLast?_eq_getElem?] at clear
    cases found : words[words.length - 1]? with
    | none => rfl
    | some word =>
      rw [found] at clear
      simp only [decide_eq_true_eq] at clear ⊢
      have bit := congrArg (fun word => word.getLsbD (ordinal % 64)) clear
      rw [BitVec.getLsbD_and, BitVec.getLsbD_not, BitVec.getLsbD_ushiftRight,
        BitVec.getLsbD_allOnes, BitVec.getLsbD_zero] at bit
      have shifted : ¬ 64 - recordCount % 64 + ordinal % 64 < 64 := by omega
      have small : ordinal % 64 < 64 := by omega
      simpa [shifted, small] using bit
  · rw [List.getElem?_eq_none (by omega)]

/-- The bits of a checked bitmap are the flags of its records, filled up with clear bits. -/
theorem bitsOf_of_unusedBitsClear (sized : divCeil recordCount 64 = words.length)
    (clear : ReleaseEncoding.unusedBitsClear words recordCount = true) :
    bitsOf words = (List.range recordCount).map (bitAt words) ++
      List.replicate (words.length * 64 - recordCount) false := by
  have enough := le_divCeil_mul recordCount
  obtain ⟨unused, total⟩ : ∃ unused, words.length * 64 = recordCount + unused :=
    ⟨words.length * 64 - recordCount, by omega⟩
  rw [bitsOf_eq_map, total, List.range_add, List.map_append, List.map_map, Nat.add_sub_cancel_left]
  congr 1
  refine List.eq_replicate_iff.mpr ⟨by simp, fun flag member => ?_⟩
  obtain ⟨index, -, rfl⟩ := List.mem_map.mp member
  exact bitAt_of_unusedBitsClear sized clear (Nat.le_add_right _ _)

theorem countP_bitsOf_le (sized : divCeil recordCount 64 = words.length)
    (clear : ReleaseEncoding.unusedBitsClear words recordCount = true) :
    (bitsOf words).countP id ≤ recordCount := by
  rw [bitsOf_of_unusedBitsClear sized clear, List.countP_append]
  have unused : (List.replicate (words.length * 64 - recordCount) false).countP id = 0 := by simp
  rw [unused, Nat.add_zero]
  exact List.countP_le_length.trans (by simp)

theorem releasedCount_bitmap_eq
    (counted : ReleaseEncoding.releasedCount (.bitmap words) = .ok released) :
    (bitsOf words).countP id = released := by
  have general : ∀ total, tryFold (fun total word =>
      orError "released_count overflows u64" (checkedAdd total (countOnes word))) total words =
        .ok released → total + (bitsOf words).countP id = released := by
    clear counted
    induction words with
    | nil => simp [bitsOf]
    | cons word rest ih =>
      intro total counted
      have ones : ((List.range 64).map word.getLsbD).countP id = countOnes word := by
        rw [List.countP_map]
        rfl
      simp only [tryFold_cons, bind_eq_ok, orError_eq_ok,
        checkedAdd_eq_some] at counted
      obtain ⟨_, ⟨rfl, -⟩, later⟩ := counted
      rw [bitsOf_cons, List.countP_append, ones, ← ih _ later, Nat.add_assoc]
  simpa using general 0 counted

theorem releasedCount_ranges_eq {found : List SequenceRange}
    (counted : ReleaseEncoding.releasedCount (.ranges found) = .ok released) :
    (found.map (·.len)).sum = released ∧ released ≤ wordMax := by
  have general : ∀ total, total ≤ wordMax → tryFold (fun total (range : SequenceRange) => do
      let _ ← range.finish
      orError "released_count overflows u64" (checkedAdd total range.len)) total found =
        .ok released → total + (found.map (·.len)).sum = released ∧ released ≤ wordMax := by
    clear counted
    induction found with
    | nil =>
      intro total bounded equal
      simp only [tryFold_nil, Except.ok.injEq] at equal
      simp only [List.map_nil, List.sum_nil]
      omega
    | cons range rest ih =>
      intro total bounded counted
      simp only [tryFold_cons, bind_eq_ok, orError_eq_ok,
        checkedAdd_eq_some] at counted
      obtain ⟨_, ⟨_, -, rfl, fits⟩, later⟩ := counted
      have := ih _ fits later
      rw [List.map_cons, List.sum_cons]
      omega
  simpa using general 0 (Nat.zero_le _) counted

/-- The units of a release encoding are words. -/
def ReleaseEncoding.Representable : ReleaseEncoding → Prop
  | .ranges found => found.length ≤ wordMax ∧
      ∀ range ∈ found, range.start ≤ wordMax ∧ range.len ≤ wordMax
  | .bitmap words => words.length ≤ wordMax

/-- **A canonical encoding counts released records of its segment.** -/
theorem ReleaseEncoding.validateCanonical_eq_ok {encoding : ReleaseEncoding}
    (canonical : encoding.validateCanonical recordCount = .ok released) :
    recordCount ≠ 0 ∧ encoding.releasedCount = .ok released ∧ released ≤ recordCount ∧
      encoding.Representable := by
  simp only [ReleaseEncoding.validateCanonical, bind_eq_ok, ensure_eq_ok,
    orError_eq_ok, checkedMul_eq_some, decide_eq_true_eq] at canonical
  obtain ⟨_, nonzero, _, ⟨rfl, fits⟩, accepted⟩ := canonical
  refine ⟨nonzero, ?_⟩
  cases encoding with
  | ranges found =>
    simp only [ReleaseEncoding.validateRangeEncoding, validateRanges, bind_eq_ok,
      ensure_eq_ok, orError_eq_ok, checkedMul_eq_some, toWord_eq_some,
      pure_eq_ok] at accepted
    obtain ⟨_, ⟨_, -, valid⟩, _, inside, _, counted, _, ⟨rfl, short⟩, _, -, _, -, rfl⟩ := accepted
    have bounds := validateRangesAfter_bounds valid
    have ends : ∀ range ∈ found, range.start + (range.len - 1) < recordCount := by
      intro range member
      have checked := forall_of_tryMap_eq_ok inside range member
      simp only [bind_eq_ok, SequenceRange.finish_eq_ok, ensure_eq_ok,
        decide_eq_true_eq] at checked
      obtain ⟨_, ⟨-, rfl, -⟩, below⟩ := checked
      exact below
    obtain ⟨rfl, summed⟩ := releasedCount_ranges_eq counted
    have total := sum_len_le_of_validateRangesAfter valid ends (by simp)
    refine ⟨counted, by simpa using total, short, fun range member => ?_⟩
    have len : range.len ≤ (found.map (·.len)).sum :=
      List.single_le_sum (fun _ _ => Nat.zero_le _) _ (List.mem_map_of_mem member)
    have := bounds range member
    omega
  | bitmap words =>
    simp only [ReleaseEncoding.validateBitmapEncoding, bind_eq_ok, ensure_eq_ok,
      orError_eq_ok, checkedMul_eq_some, pure_eq_ok, decide_eq_true_eq] at accepted
    obtain ⟨_, sized, _, clear, _, counted, _, -, _, -, _, -, _, -, rfl⟩ := accepted
    refine ⟨counted, ?_, ?_⟩
    · rw [← releasedCount_bitmap_eq counted]
      exact countP_bitsOf_le sized clear
    · show words.length ≤ wordMax
      rw [sized] at fits
      omega

end Camus
