/-
**The selection of an append group.**

A bounded root takes the largest prefix of the queued units that is admitted:

* `fittingUnits_eq_ok`, `physical_target` — all prefixes of the physical prefix go to the same segment.
* `searchAdmissible_eq_ok` — the binary search finds the last admitted prefix of a monotone check.
* `selects_largest_iff` — the selection is the largest admissible prefix, admission is monotone, and the
  selected units fit one segment, exactly if the checks do not overflow.
-/

import Camus.Api.Reactor
import Camus.Storage.Errors
import Camus.Storage.Weights

set_option linter.unusedSectionVars false

namespace Camus

open Codec Checked Disk FaultIo Result

variable {fuel rejected fewer count capacity : Nat} {other : Nat → Except Error CapacityCheck}
  {world : World}

/-! ### The physical prefix -/

theorem fittingUnits_eq_ok {units : List AppendUnit} {available bytes selected : Nat}
    (filled : Filled units) (short : bytes + groupLength units ≤ wordMax)
    (fitting : fittingUnits available bytes units = .ok selected) :
    selected ≤ units.length ∧
      (∀ count, 0 < count → count ≤ selected → bytes + groupLength (units.take count) ≤ available) ∧
      (selected < units.length → available < bytes + groupLength (units.take (selected + 1))) := by
  induction units generalizing bytes selected with
  | nil =>
    cases fitting
    exact ⟨Nat.le_refl _, fun count positive le => absurd le (Nat.not_le.mpr positive),
      fun less => absurd less (Nat.lt_irrefl _)⟩
  | cons unit rest ih =>
    have length : groupLength (unit :: rest) = unit.bytes + groupLength rest := by
      rw [groupLength, List.map_cons, List.sum_cons]
      rfl
    have one : groupLength [unit] = unit.bytes := by simp [groupLength]
    rw [length] at short
    have added : checkedAdd bytes unit.bytes = some (bytes + unit.bytes) :=
      checkedAdd_eq_some.mpr ⟨rfl, by omega⟩
    have encoded : encodedEpochBytes unit.records = .ok unit.bytes :=
      encodedEpochBytes_eq_ok.mpr ⟨filled unit List.mem_cons_self, by omega, rfl⟩
    simp only [fittingUnits, encoded, ok_bind, added] at fitting
    split at fitting
    · rename_i full
      cases fitting
      refine ⟨Nat.zero_le _, fun count positive le => absurd le (Nat.not_le.mpr positive), fun _ => ?_⟩
      rw [List.take_succ_cons, List.take_zero, one]
      exact full
    · rename_i room
      simp only [bind_eq_ok, pure_eq_ok] at fitting
      obtain ⟨more, others, rfl⟩ := fitting
      obtain ⟨within, fits, full⟩ := ih
        (fun other member => filled other (List.mem_cons_of_mem _ member)) (by omega) others
      refine ⟨Nat.succ_le_succ within, fun count positive le => ?_, fun less => ?_⟩
      · obtain ⟨count, rfl⟩ := Nat.exists_eq_succ_of_ne_zero (Nat.pos_iff_ne_zero.mp positive)
        rw [List.take_succ_cons, groupLength, List.map_cons, List.sum_cons]
        change bytes + (unit.bytes + groupLength (rest.take count)) ≤ available
        rcases Nat.eq_zero_or_pos count with rfl | later
        · simp only [List.take_zero, groupLength, List.map_nil, List.sum_nil]
          omega
        · have bound := fits count later (Nat.le_of_succ_le_succ le)
          omega
      · have bound := full (Nat.lt_of_succ_lt_succ less)
        rw [List.take_succ_cons, groupLength, List.map_cons, List.sum_cons]
        change available < bytes + (unit.bytes + groupLength (rest.take (more + 1)))
        omega

namespace Storage

variable {storage : Storage} {units : List AppendUnit} {clock : Clock}

/-- **Where the prefixes of the physical prefix go.** All of them go to the same segment; the empty one
has room in the active segment if the others have. -/
theorem physical_target {limit : Nat} (queued : units ≠ []) (filled : Filled units)
    (short : groupLength units ≤ wordMax)
    (physical : storage.appendPrefixForActiveSegment units clock = .ok limit) :
    (0 < limit ∧ limit ≤ units.length) ∧ ∃ fits : Bool,
      (∀ count, 0 < count → count ≤ limit →
        storage.activeFits (demandOf (units.take count)) clock = .ok fits) ∧
      ∃ roomy : Bool, storage.activeFits (demandOf []) clock = .ok roomy ∧
        (fits = true → roomy = true) := by
  have some : 0 < units.length := List.length_pos_iff.mpr queued
  have bytes : ∀ count, (demandOf (units.take count)).groupBytes = groupLength (units.take count) :=
    fun count => (demandOf_of (filled.take count) ((groupLength_take_le_all units count).trans short)).bytes
  unfold appendPrefixForActiveSegment at physical
  unfold activeFits
  cases isActive : storage.activeSegment with
  | none =>
    rw [isActive] at physical
    cases physical
    exact ⟨⟨some, Nat.le_refl _⟩, false, fun _ _ _ => rfl, false, rfl, id⟩
  | some active =>
    rw [isActive] at physical
    simp only [bind_eq_ok] at physical
    obtain ⟨expired, isExpired, physical⟩ := physical
    simp only [isExpired, ok_bind]
    cases expired with
    | true =>
      simp only [if_true, Except.ok.injEq] at physical
      subst physical
      exact ⟨⟨some, Nat.le_refl _⟩, false, fun _ _ _ => rfl, false, rfl, id⟩
    | false =>
      simp only [Bool.false_eq_true, if_false, bind_eq_ok, pure_eq_ok] at physical ⊢
      obtain ⟨available, isAvailable, selected, fitting, rfl⟩ := physical
      obtain ⟨within, fits, full⟩ := fittingUnits_eq_ok filled (by simpa using short) fitting
      simp only [Nat.zero_add] at fits full
      by_cases nothing : selected = 0
      · subst nothing
        rw [if_pos rfl]
        refine ⟨⟨some, Nat.le_refl _⟩, false, fun count positive le => ⟨available, isAvailable, ?_⟩,
          true, ⟨available, isAvailable, ?_⟩, fun _ => rfl⟩
        · have heavy : available < groupLength (units.take 1) := full some
          have more : groupLength (units.take 1) ≤ groupLength (units.take count) :=
            groupLength_take_le units positive
          rw [bytes, decide_eq_false_iff_not]
          omega
        · exact decide_eq_true (Nat.zero_le _)
      · rw [if_neg nothing]
        refine ⟨⟨Nat.pos_of_ne_zero nothing, within⟩, true,
          fun count positive le => ⟨available, isAvailable, ?_⟩, true, ⟨available, isAvailable, ?_⟩, id⟩
        · rw [bytes, decide_eq_true_eq]
          exact fits count positive le
        · exact decide_eq_true (Nat.zero_le _)

end Storage

/-! ### The binary search -/

section

variable {check : Nat → Except Error CapacityCheck}

/-- The checks of a search answer. -/
def AnswersUpTo (check : Nat → Except Error CapacityCheck) (limit : Nat) : Prop :=
  ∀ count, 0 < count → count ≤ limit → ∃ answer, check count = .ok answer

/-- A search looks no further than the rejected prefix. -/
theorem searchAdmissible_congr {limit : Nat} (agree : ∀ count ≤ limit, check count = other count)
    {admitted : Nat} (within : rejected ≤ limit) :
    searchAdmissible check fuel admitted rejected = searchAdmissible other fuel admitted rejected := by
  induction fuel generalizing admitted rejected with
  | zero => rfl
  | succ fuel ih =>
    unfold searchAdmissible
    by_cases close : rejected - admitted ≤ 1
    · rw [if_pos close, if_pos close]
    · have inside : admitted + (rejected - admitted) / 2 ≤ limit := by omega
      simp only [if_neg close, agree _ inside, ih within, ih inside]

theorem selectLargestAdmissiblePrefix_congr {limit : Nat} (positive : 0 < limit)
    (agree : ∀ count ≤ limit, check count = other count) :
    selectLargestAdmissiblePrefix limit check = selectLargestAdmissiblePrefix limit other := by
  simp only [selectLargestAdmissiblePrefix, agree 1 positive, agree limit (Nat.le_refl _),
    searchAdmissible_congr agree (Nat.le_refl limit)]

/-- **The search ends at a step from an admitted prefix to a rejected one.** -/
theorem searchAdmissible_eq_ok {fuel admitted rejected : Nat}
    (answers : ∀ count, admitted < count → count < rejected → ∃ answer, check count = .ok answer)
    (isAdmitted : check admitted = .ok .admitted) (isRejected : check rejected ≠ .ok .admitted)
    (less : admitted < rejected) (enough : rejected ≤ admitted + fuel + 1) :
    ∃ found, searchAdmissible check fuel admitted rejected = .ok found ∧ admitted ≤ found ∧
      found < rejected ∧ check found = .ok .admitted ∧ check (found + 1) ≠ .ok .admitted := by
  induction fuel generalizing admitted rejected with
  | zero =>
    obtain rfl : rejected = admitted + 1 := by omega
    exact ⟨admitted, rfl, Nat.le_refl _, less, isAdmitted, isRejected⟩
  | succ fuel ih =>
    unfold searchAdmissible
    by_cases close : rejected - admitted ≤ 1
    · obtain rfl : rejected = admitted + 1 := by omega
      rw [if_pos close]
      exact ⟨admitted, rfl, Nat.le_refl _, less, isAdmitted, isRejected⟩
    · obtain ⟨answer, answered⟩ := answers (admitted + (rejected - admitted) / 2) (by omega) (by omega)
      simp only [if_neg close, answered, ok_bind]
      by_cases here : answer = .admitted
      · subst here
        rw [if_pos rfl]
        obtain ⟨found, isFound, atLeast, below, last, next⟩ := ih
          (fun count above under => answers count (by omega) under) answered isRejected (by omega) (by omega)
        exact ⟨found, isFound, by omega, below, last, next⟩
      · rw [if_neg here]
        obtain ⟨found, isFound, atLeast, below, last, next⟩ := ih
          (fun count above under => answers count above (by omega)) isAdmitted
          (fun same => here (Except.ok.inj (answered.symm.trans same))) (by omega) (by omega)
        exact ⟨found, isFound, atLeast, by omega, last, next⟩

/-- What a selection from some units has to be: the greatest admitted count, or none with the answer for
the first unit. -/
def IsLargest (check : Nat → Except Error CapacityCheck) (limit : Nat)
    (selection : Option Nat × CapacityCheck) : Prop :=
  (∃ count, selection = (some count, .admitted) ∧ 0 < count ∧ count ≤ limit ∧
    check count = .ok .admitted ∧ ∀ more, count < more → more ≤ limit → check more ≠ .ok .admitted) ∨
  ∃ answer, selection = (none, answer) ∧ check 1 = .ok answer ∧ answer ≠ .admitted

/-- **The selection is the largest admissible prefix**, if the check is monotone and answers. -/
theorem selectLargestAdmissiblePrefix_isLargest {limit : Nat} (positive : 0 < limit)
    (monotone : ∀ fewer count, 0 < fewer → fewer ≤ count → count ≤ limit →
      check count = .ok .admitted → check fewer = .ok .admitted)
    {first : CapacityCheck} (isFirst : check 1 = .ok first)
    (answers : first = .admitted → AnswersUpTo check limit) :
    ∃ selection, selectLargestAdmissiblePrefix limit check = .ok selection ∧
      IsLargest check limit selection := by
  simp only [selectLargestAdmissiblePrefix, isFirst, ok_bind]
  by_cases refused : first ≠ .admitted
  · rw [if_pos refused]
    exact ⟨_, rfl, .inr ⟨first, rfl, isFirst, refused⟩⟩
  · obtain rfl : first = .admitted := not_not.mp refused
    rw [if_neg refused]
    by_cases single : limit = 1
    · subst single
      rw [if_pos rfl]
      exact ⟨_, rfl, .inl ⟨1, rfl, Nat.one_pos, Nat.le_refl _, isFirst,
        fun more above le => absurd le (Nat.not_le.mpr above)⟩⟩
    · obtain ⟨all, isAll⟩ := answers rfl limit positive (Nat.le_refl _)
      simp only [if_neg single, isAll, ok_bind]
      by_cases whole : all = .admitted
      · subst whole
        rw [if_pos rfl]
        exact ⟨_, rfl, .inl ⟨limit, rfl, positive, Nat.le_refl _, isAll,
          fun more above le => absurd le (Nat.not_le.mpr above)⟩⟩
      · obtain ⟨found, isFound, atLeast, below, last, next⟩ := @searchAdmissible_eq_ok check limit 1 limit
          (fun count above under => answers rfl count (by omega) (by omega)) isFirst
          (fun same => whole (Except.ok.inj (isAll.symm.trans same))) (by omega) (by omega)
        simp only [if_neg whole, isFound, ok_bind]
        refine ⟨_, rfl, .inl ⟨found, rfl, by omega, by omega, last, fun more above le isMore => ?_⟩⟩
        exact next (monotone (found + 1) more (by omega) above le isMore)

/-- A selection makes the checks of the first unit and, if that is admitted, of all units. -/
theorem answers_of_selectLargestAdmissiblePrefix {limit : Nat} {selection : Option Nat × CapacityCheck}
    (selected : selectLargestAdmissiblePrefix limit check = .ok selection) :
    ∃ first, check 1 = .ok first ∧ (first = .admitted → ∃ all, check limit = .ok all) := by
  simp only [selectLargestAdmissiblePrefix, bind_eq_ok] at selected
  obtain ⟨first, isFirst, selected⟩ := selected
  refine ⟨first, isFirst, ?_⟩
  rintro rfl
  rw [if_neg (not_not.mpr rfl)] at selected
  by_cases single : limit = 1
  · exact ⟨_, single ▸ isFirst⟩
  · rw [if_neg single, bind_eq_ok] at selected
    obtain ⟨all, isAll, -⟩ := selected
    exact ⟨all, isAll⟩

end

/-! ### Admission of prefixes -/

namespace Storage

/-- The segment that a queue goes to. -/
def queueTarget (storage : Storage) (units : List AppendUnit) (clock : Clock) : Option Nat :=
  match storage.activeFits (demandOf (units.take 1)) clock with
  | .ok fits => storage.targetOf fits
  | .error _ => none

/-- **The checks of a selection do not overflow**: that of the first unit, and that of all units where
the first is admitted. -/
def SelectionComputes (storage : Storage) (totalBytes : Nat) (units : List AppendUnit) (limit : Nat)
    (target : Option Nat) : Prop :=
  storage.Computes totalBytes (demandOf (units.take 1)) target ∧
    (storage.weightOf (demandOf (units.take 1)) target ≤ totalBytes →
      storage.Computes totalBytes (demandOf (units.take limit)) target)

section

variable {storage : Storage} {totalBytes : Nat} {target : Option Nat} {smaller larger : GroupDemand}

theorem Computes.mono (within : smaller.Within larger) (computes : storage.Computes totalBytes larger target) :
    storage.Computes totalBytes smaller target := by
  have less := storage.weightOf_mono target within
  refine ⟨less.trans computes.weight, fun heavy => ?_⟩
  exact (storage.minimumWeight_mono within).trans (computes.minimum (heavy.trans_le less))

/-- An empty group weighs least. -/
theorem weightOf_empty_le (active : Nat) (demand : GroupDemand) (target : Option Nat) :
    storage.weightOf (demandOf []) (some active) ≤ storage.weightOf demand target := by
  have keys : (demandOf []).recordCounts.keys = [] := by simp [demandOf]
  have unknown : storage.unknownStreams (demandOf []) = 0 := by rw [unknownStreams, keys]; rfl
  have added : ∀ segmentId, storage.addedStreams (demandOf []) segmentId = 0 := by
    intro segmentId
    rw [addedStreams, keys]
    rfl
  have loads : storage.projectedLoads (demandOf []) (some active) = storage.loads := by
    rw [loads_eq, loadsOf, projectedLoads]
    simp only [Option.isNone_some, Bool.false_eq_true, if_false, List.append_nil]
    refine List.map_congr_left fun entry _ => ?_
    simp only [projectedLoad, added, ite_self, Nat.add_zero, Segment.load]
    show (_ + ite _ 0 0, _) = _
    rw [ite_self, Nat.add_zero]
  have reserve := reserveOf_mono storage.config (Nat.le_add_right storage.streams.size
    (storage.unknownStreams demand)) (storage.loads_le_projectedLoads target demand)
    (Nat.le_refl segmentFooterLen)
  have bytes : (demandOf []).groupBytes = 0 := rfl
  unfold weightOf filesAfter streamsAfter
  rw [loads, unknown, bytes]
  simp only [Option.isNone_some, Bool.and_false, Bool.false_eq_true, if_false, Nat.add_zero]
  omega

end

/-- A queue of units whose epochs can be counted, and its physical prefix. -/
structure Queued (storage : Storage) (units : List AppendUnit) (clock : Clock) (limit : Nat) : Prop where
  nonempty : units ≠ []
  filled : Filled units
  short : groupLength units ≤ wordMax
  physical : storage.appendPrefixForActiveSegment units clock = .ok limit

namespace Queued

variable {storage : Storage} {units : List AppendUnit} {clock : Clock} {limit totalBytes : Nat}
  {whenFull : FullPolicy}

theorem isDemand (queued : Queued storage units clock limit) (count : Nat) :
    tryFold GroupDemand.add ⟨∅, 0, 0⟩ (units.take count) = .ok (demandOf (units.take count)) :=
  demandOf_eq (queued.filled.take count) ((groupLength_take_le_all units count).trans queued.short)

theorem within (queued : Queued storage units clock limit) (le : fewer ≤ count) :
    (demandOf (units.take fewer)).Within (demandOf (units.take count)) :=
  within_take queued.filled queued.short le

theorem positive (queued : Queued storage units clock limit) : 0 < limit :=
  (physical_target queued.nonempty queued.filled queued.short queued.physical).1.1

/-- All prefixes go to one segment. -/
theorem exists_fits (queued : Queued storage units clock limit) : ∃ fits,
    storage.queueTarget units clock = storage.targetOf fits ∧ ∀ count, 0 < count → count ≤ limit →
      storage.activeFits (demandOf (units.take count)) clock = .ok fits := by
  obtain ⟨⟨positive, -⟩, fits, isFits, -⟩ :=
    physical_target queued.nonempty queued.filled queued.short queued.physical
  refine ⟨fits, ?_, isFits⟩
  rw [queueTarget, isFits 1 Nat.one_pos positive]

section

variable (bounded : storage.config.capacity = .bounded totalBytes whenFull)
  (accounted : storage.Accounted)

include bounded accounted

/-- A prefix is admitted exactly if its weight is within the capacity. -/
theorem admitted (queued : Queued storage units clock limit) (positive : 0 < count)
    (within : count ≤ limit) :
    storage.checkAppendCapacity (units.take count) clock = .ok .admitted ↔
      storage.weightOf (demandOf (units.take count)) (storage.queueTarget units clock) ≤ wordMax ∧
        storage.weightOf (demandOf (units.take count)) (storage.queueTarget units clock) ≤
          totalBytes := by
  obtain ⟨fits, isTarget, isFits⟩ := queued.exists_fits
  rw [isTarget]
  exact admitted_iff bounded accounted (queued.isDemand count) (isFits count positive within)

theorem answers (queued : Queued storage units clock limit) (positive : 0 < count)
    (within : count ≤ limit) :
    (∃ answer, storage.checkAppendCapacity (units.take count) clock = .ok answer) ↔
      storage.Computes totalBytes (demandOf (units.take count)) (storage.queueTarget units clock) := by
  obtain ⟨fits, isTarget, isFits⟩ := queued.exists_fits
  rw [isTarget]
  exact answers_iff bounded accounted (queued.isDemand count) (isFits count positive within)

/-- The empty group is admitted if another one is. -/
theorem empty_admitted (queued : Queued storage units clock limit) (positive : 0 < count)
    (within : count ≤ limit)
    (isAdmitted : storage.checkAppendCapacity (units.take count) clock = .ok .admitted) :
    storage.checkAppendCapacity [] clock = .ok .admitted := by
  obtain ⟨-, fits, isFits, roomy, isRoomy, room⟩ :=
    physical_target queued.nonempty queued.filled queued.short queued.physical
  obtain ⟨short, light⟩ := (admitted_iff bounded accounted (queued.isDemand count)
    (isFits count positive within)).mp isAdmitted
  have less : storage.weightOf (demandOf []) (storage.targetOf roomy) ≤
      storage.weightOf (demandOf (units.take count)) (storage.targetOf fits) := by
    have grows : (demandOf []).Within (demandOf (units.take count)) := queued.within (Nat.zero_le count)
    -- the targets differ only where the group is too large for the active segment
    cases roomy with
    | false =>
      obtain rfl : fits = false := by
        cases fits with
        | false => rfl
        | true => exact absurd (room rfl) (by decide)
      exact storage.weightOf_mono none grows
    | true =>
      cases isActive : storage.activeSegment with
      | none =>
        have none : ∀ fits, storage.targetOf fits = none := by
          intro fits
          rw [targetOf, isActive, ite_self]
        rw [none, none]
        exact storage.weightOf_mono _ grows
      | some active =>
        rw [show storage.targetOf true = some active from isActive]
        exact weightOf_empty_le active _ _
  exact (admitted_iff bounded accounted (queued.isDemand 0) isRoomy).mpr ⟨less.trans short, less.trans light⟩

/-- **Admission is monotone** along the physical prefix. -/
theorem monotone (queued : Queued storage units clock limit) (le : fewer ≤ count)
    (within : count ≤ limit)
    (isAdmitted : storage.checkAppendCapacity (units.take count) clock = .ok .admitted) :
    storage.checkAppendCapacity (units.take fewer) clock = .ok .admitted := by
  rcases Nat.eq_zero_or_pos count with rfl | many
  · obtain rfl := Nat.le_zero.mp le
    exact isAdmitted
  rcases Nat.eq_zero_or_pos fewer with rfl | some
  · exact queued.empty_admitted bounded accounted many within isAdmitted
  · obtain ⟨short, light⟩ := (queued.admitted bounded accounted many within).mp isAdmitted
    have less := storage.weightOf_mono (storage.queueTarget units clock) (queued.within le)
    exact (queued.admitted bounded accounted some (le.trans within)).mpr
      ⟨less.trans short, less.trans light⟩

end

end Queued

end Storage

/-! ### The selection -/

section

variable [Hasher]

/-- **What a selection owes**: admission is monotone along the physical prefix, the largest admissible
prefix is selected, and no selected prefix is too large for a segment. -/
structure SelectsLargest (world : World) (units : List AppendUnit) (clock : Clock) (limit : Nat) :
    Prop where
  monotone : ∀ fewer count, fewer ≤ count → count ≤ limit →
    world.storage.checkAppendCapacity (units.take count) clock = .ok .admitted →
      world.storage.checkAppendCapacity (units.take fewer) clock = .ok .admitted
  largest : ∃ selection,
    world.storage.largestAdmissibleAppendPrefix (units.take limit) (fun _ => clock) = .ok selection ∧
      IsLargest (fun count => world.storage.checkAppendCapacity (units.take count) clock) limit selection
  fits : ∀ selected ≤ limit, ∀ expiry creation final,
    ¬ Errs (appendGroup (units.take selected) expiry creation) world largeGroup final

/-- The checks of the prefixes of a prefix. -/
theorem Storage.largestAdmissibleAppendPrefix_take (storage : Storage) {units : List AppendUnit}
    {limit : Nat} (positive : 0 < limit) (within : limit ≤ units.length) (clock : Clock) :
    storage.largestAdmissibleAppendPrefix (units.take limit) (fun _ => clock) =
      selectLargestAdmissiblePrefix limit fun count =>
        storage.checkAppendCapacity (units.take count) clock := by
  rw [largestAdmissibleAppendPrefix, List.length_take, Nat.min_eq_left within]
  refine selectLargestAdmissiblePrefix_congr positive fun count le => ?_
  show storage.checkAppendCapacity ((units.take limit).take count) clock = _
  rw [List.take_take, Nat.min_eq_left le]

/-- **The selection of a bounded append is the largest admissible prefix**, in every reachable state and
for every queue whose epochs fit a group, exactly if the checks of the selection do not overflow. -/
theorem selects_largest_iff {world : World} (reached : Reached world) {totalBytes : Nat}
    {whenFull : FullPolicy} (bounded : world.storage.config.capacity = .bounded totalBytes whenFull)
    (word : world.storage.config.maxCommitBytes ≤ wordMax) {units : List AppendUnit} {clock : Clock}
    {limit : Nat} (nonempty : units ≠ []) (filled : Filled units)
    (short : groupLength units ≤ world.storage.config.limits.maxAppendGroupBytes)
    (physical : world.storage.appendPrefixForActiveSegment units clock = .ok limit) :
    SelectsLargest world units clock limit ↔
      world.storage.SelectionComputes totalBytes units limit
        (world.storage.queueTarget units clock) := by
  have accounted := accounted_reached reached
  have commit : groupLength units ≤ world.storage.config.maxCommitBytes :=
    short.trans (Nat.min_le_left _ _)
  have segment : groupLength units ≤
      world.storage.config.segmentBytes - segmentHeaderLen - segmentFooterLen :=
    short.trans (Nat.min_le_right _ _)
  have queued : Storage.Queued world.storage units clock limit :=
    ⟨nonempty, filled, commit.trans word, physical⟩
  have positive := queued.positive
  have search := world.storage.largestAdmissibleAppendPrefix_take positive
    (Storage.physical_target nonempty filled queued.short physical).1.2 clock
  constructor
  · intro selects
    obtain ⟨selection, selected, -⟩ := selects.largest
    rw [search] at selected
    obtain ⟨first, isFirst, whole⟩ := answers_of_selectLargestAdmissiblePrefix selected
    have computes := (queued.answers bounded accounted Nat.one_pos positive).mp ⟨first, isFirst⟩
    refine ⟨computes, fun light => ?_⟩
    refine (queued.answers bounded accounted positive (Nat.le_refl _)).mp (whole ?_)
    exact Except.ok.inj (isFirst.symm.trans
      ((queued.admitted bounded accounted Nat.one_pos positive).mpr ⟨computes.weight, light⟩))
  · rintro ⟨computes, whole⟩
    refine ⟨fun _ _ le within => queued.monotone bounded accounted le within, ?_,
      fun selected le expiry creation final erred => ?_⟩
    · obtain ⟨first, isFirst⟩ := (queued.answers bounded accounted Nat.one_pos positive).mpr computes
      rw [search]
      refine selectLargestAdmissiblePrefix_isLargest positive
        (fun _ _ _ le within => queued.monotone bounded accounted le within) isFirst ?_
      rintro rfl count some within
      refine (queued.answers bounded accounted some within).mpr ?_
      exact (whole ((queued.admitted bounded accounted Nat.one_pos positive).mp isFirst).2).mono
        (queued.within within)
    · rcases Nat.eq_zero_or_pos selected with rfl | some
      · exact erred.result
      · have chosen : units.take selected ≠ [] := by
          rw [ne_eq, List.take_eq_nil_iff, not_or]
          exact ⟨Nat.pos_iff_ne_zero.mp some, nonempty⟩
        have large := large_of_errs chosen erred
        have part := groupLength_take_le_all units selected
        have header : groupLength units ≠ 0 := by
          obtain ⟨unit, rest, rfl⟩ := List.exists_cons_of_ne_nil nonempty
          rw [groupLength, List.map_cons, List.sum_cons, AppendUnit.bytes, epochHeaderLen]
          omega
        omega

end

/-! ### Two units in a queue -/

namespace SelectionSample

def config (capacity releases : Nat) : Config :=
  { Config.sample with
    capacity := .bounded capacity .block
    segmentBytes := 352
    maxReleaseRecords := releases
    maxCommitBytes := wordMax }

def units : List AppendUnit := [Sample.unit 1, Sample.unit 1]

theorem filled : Filled units := by
  intro unit member
  rw [units, List.mem_pair, or_self] at member
  subst member
  decide

/-- The checks of the two units do not overflow. -/
def computes (world : World) : Bool :=
  world.storage.weightOf (demandOf (units.take 1)) (world.storage.queueTarget units (.millis 5)) ≤
      wordMax &&
    world.storage.minimumWeight (demandOf (units.take 1)) ≤ wordMax &&
    world.storage.weightOf (demandOf (units.take 2)) (world.storage.queueTarget units (.millis 5)) ≤
      wordMax &&
    world.storage.minimumWeight (demandOf (units.take 2)) ≤ wordMax

theorem selectionComputes_of_computes (isComputed : computes world = true) :
    world.storage.SelectionComputes capacity units 2
      (world.storage.queueTarget units (.millis 5)) := by
  simp only [computes, Bool.and_eq_true, decide_eq_true_eq] at isComputed
  obtain ⟨⟨⟨first, firstMinimum⟩, whole⟩, wholeMinimum⟩ := isComputed
  exact ⟨⟨first, fun _ => firstMinimum⟩, fun _ => ⟨whole, fun _ => wholeMinimum⟩⟩

end SelectionSample

section

open SelectionSample

/-- The first of two units is selected. -/
theorem selects_largest_iff_sample : ∃ opened : World, @SelectsLargest Hasher.fnv opened units (.millis 5) 2 ∧
    opened.storage.largestAdmissibleAppendPrefix units (fun _ => .millis 5) =
      .ok (some 1, .admitted) := by
  have evaluated : (Sample.run (config 920 4) []).any (fun opened =>
      decide (opened.storage.config = config 920 4) &&
        decide (opened.storage.appendPrefixForActiveSegment units (.millis 5) = .ok 2) &&
        computes opened &&
        decide (opened.storage.largestAdmissibleAppendPrefix units (fun _ => .millis 5) =
          .ok (some 1, .admitted))) = true := by
    decide +kernel
  obtain ⟨opened, isOpened, checked⟩ := exists_of_any evaluated
  simp only [Bool.and_eq_true, decide_eq_true_eq] at checked
  obtain ⟨⟨⟨isConfig, physical⟩, isComputed⟩, selected⟩ := checked
  refine ⟨opened, (@selects_largest_iff Hasher.fnv opened (Sample.reached_of_run isOpened) 920 .block
    (by rw [isConfig]; rfl) (by rw [isConfig]; exact Nat.le_refl _) units (.millis 5) 2 (by decide)
    filled (by rw [isConfig]; decide) physical).mpr (selectionComputes_of_computes isComputed), selected⟩

/-- **A selection may fail although its first unit is admissible**: the projected weight of all units
overflows. -/
theorem selection_overflows : ∃ opened : World, @Reached Hasher.fnv opened ∧
    opened.storage.config = config wordMax 1152921504606846936 ∧
    groupLength units ≤ opened.storage.config.limits.maxAppendGroupBytes ∧
    opened.storage.appendPrefixForActiveSegment units (.millis 5) = .ok 2 ∧
    opened.storage.checkAppendCapacity (units.take 1) (.millis 5) = .ok .admitted ∧
    opened.storage.largestAdmissibleAppendPrefix units (fun _ => .millis 5) =
      .error (.invalidConfig "append capacity projection overflow") := by
  have evaluated : (Sample.run (config wordMax 1152921504606846936) []).any (fun opened =>
      decide (opened.storage.config = config wordMax 1152921504606846936) &&
        decide (groupLength units ≤ opened.storage.config.limits.maxAppendGroupBytes) &&
        decide (opened.storage.appendPrefixForActiveSegment units (.millis 5) = .ok 2) &&
        decide (opened.storage.checkAppendCapacity (units.take 1) (.millis 5) = .ok .admitted) &&
        decide (opened.storage.largestAdmissibleAppendPrefix units (fun _ => .millis 5) =
          .error (.invalidConfig "append capacity projection overflow"))) = true := by
    decide +kernel
  obtain ⟨opened, isOpened, checked⟩ := exists_of_any evaluated
  simp only [Bool.and_eq_true, decide_eq_true_eq] at checked
  obtain ⟨⟨⟨⟨isConfig, short⟩, physical⟩, first⟩, overflows⟩ := checked
  exact ⟨opened, Sample.reached_of_run isOpened, isConfig, short, physical, first, overflows⟩

end

end Camus
