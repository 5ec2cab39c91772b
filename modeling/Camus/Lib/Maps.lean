/-
**Ordered maps.** Facts about `ExtTreeMap` and its sorted list of entries.
-/

import Camus.Lib.Result
import Std.Data.ExtTreeMap
import Std.Data.ExtTreeSet
import Mathlib.Order.Defs.LinearOrder
import Mathlib.Data.List.Dedup
import Mathlib.Data.List.Sort
import Mathlib.Data.Finset.Card
import Mathlib.Algebra.BigOperators.Group.List.Basic
import Mathlib.Data.Nat.Cast.Basic

set_option linter.unusedSectionVars false

namespace Maps

open Std

theorem dedup_length_append {α : Type} [DecidableEq α] (left right : List α) :
    (left ++ right).dedup.length =
      left.dedup.length + (right.dedup.filter fun item => item ∉ left).length := by
  have disjoint : Disjoint left.toFinset (right.toFinset \ left.toFinset) := Finset.disjoint_sdiff
  have filtered : (right.dedup.filter fun item => item ∉ left).toFinset =
      right.toFinset \ left.toFinset := by
    ext item
    simp
  have distinct : (right.dedup.filter fun item => item ∉ left).Nodup :=
    (List.nodup_dedup right).filter _
  rw [← List.card_toFinset, ← List.card_toFinset, ← List.toFinset_card_of_nodup distinct, filtered,
    ← Finset.card_union_of_disjoint disjoint, Finset.union_sdiff_self_eq_union,
    List.toFinset_append]

section

variable {κ β γ : Type} [Ord κ] [TransOrd κ] [LawfulEqOrd κ]

/-! ### Lookups after a change -/

section

variable {map : ExtTreeMap κ β} {key other : κ} {value found : β}

theorem mem_iff_found : key ∈ map ↔ ∃ value, map[key]? = some value := by
  rw [ExtTreeMap.mem_iff_isSome_getElem?, Option.isSome_iff_exists]

theorem mem_insert : other ∈ map.insert key value ↔ key = other ∨ other ∈ map := by
  rw [ExtTreeMap.mem_insert, LawfulEqOrd.compare_eq_iff_eq]

theorem getElem?_insert_of_ne (different : key ≠ other) :
    (map.insert key value)[other]? = map[other]? := by
  rw [ExtTreeMap.getElem?_insert, if_neg fun equal => different (LawfulEqOrd.eq_of_compare equal)]

theorem getElem?_erase_of_ne (different : key ≠ other) : (map.erase key)[other]? = map[other]? := by
  rw [ExtTreeMap.getElem?_erase, if_neg fun equal => different (LawfulEqOrd.eq_of_compare equal)]

/-- What is found after an insertion was inserted or was there before. -/
theorem getElem?_insert_eq_some : (map.insert key value)[other]? = some found ↔
    key = other ∧ value = found ∨ key ≠ other ∧ map[other]? = some found := by
  by_cases same : key = other
  · subst same
    simp
  · simp [getElem?_insert_of_ne same, same]

theorem getElem?_erase_eq_some : (map.erase key)[other]? = some found ↔
    key ≠ other ∧ map[other]? = some found := by
  by_cases same : key = other
  · subst same
    simp
  · simp [getElem?_erase_of_ne same, same]

/-- A value is replaced by one that shows the same. -/
theorem map_getElem?_insert {view : β → γ} (isFound : map[key]? = some found)
    (same : view value = view found) :
    (map.insert key value)[other]?.map view = map[other]?.map view := by
  by_cases here : key = other
  · subst here
    simp [isFound, same]
  · rw [getElem?_insert_of_ne here]

end

/-- The values of a map, in the order of their keys. -/
def values (map : ExtTreeMap κ β) : List β := map.toList.map Prod.snd

theorem mem_values {map : ExtTreeMap κ β} {value : β} :
    value ∈ values map ↔ ∃ key : κ, map[key]? = some value := by
  simp only [values, List.mem_map, Prod.exists, exists_eq_right,
    ExtTreeMap.mem_toList_iff_getElem?_eq_some]

/-- The greatest key of a map. -/
def greatest (map : ExtTreeMap κ β) : Option κ := map.keys.getLast?

/-- A map is as large as the list of its keys without repetitions. -/
theorem size_eq_dedup_length [DecidableEq κ] {map : ExtTreeMap κ β} {keys : List κ}
    (same : ∀ key, key ∈ map ↔ key ∈ keys) : map.size = keys.dedup.length := by
  rw [← ExtTreeMap.length_keys]
  refine List.Perm.length_eq ((List.perm_ext_iff_of_nodup ExtTreeMap.nodup_keys
    (List.nodup_dedup keys)).mpr fun key => ?_)
  rw [ExtTreeMap.mem_keys, List.mem_dedup, same]

theorem size_ofList [DecidableEq κ] (keys : List κ) :
    (ExtTreeSet.ofList keys).size = keys.dedup.length := by
  have : LawfulBEqCmp (compare : κ → κ → Ordering) := ⟨by simp⟩
  rw [← ExtTreeSet.length_toList]
  refine List.Perm.length_eq ((List.perm_ext_iff_of_nodup ?_ (List.nodup_dedup keys)).mpr
    fun key => ?_)
  · exact ExtTreeSet.distinct_toList.imp Std.ReflCmp.ne_of_cmp_ne_eq
  · rw [ExtTreeSet.mem_toList, List.mem_dedup, ExtTreeSet.mem_ofList, List.contains_iff_mem]

/-- A map is rebuilt by inserting its entries. -/
theorem foldl_insert_toList (map : ExtTreeMap κ β) :
    map.toList.foldl (fun rebuilt entry => rebuilt.insert entry.1 entry.2)
      (∅ : ExtTreeMap κ β) = map := by
  rw [← ExtTreeMap.ofList_eq_foldl]
  refine ExtTreeMap.ext_getElem? fun key => ?_
  cases found : map[key]? with
  | some value =>
    exact ExtTreeMap.getElem?_ofList_of_mem ReflCmp.compare_self ExtTreeMap.distinct_keys_toList
      (ExtTreeMap.mem_toList_iff_getElem?_eq_some.mpr found)
  | none =>
    let _ : BEq κ := ⟨fun left right => compare left right == .eq⟩
    have : LawfulBEqCmp (compare : κ → κ → Ordering) := ⟨beq_iff_eq.symm⟩
    refine ExtTreeMap.getElem?_ofList_of_contains_eq_false ?_
    rw [ExtTreeMap.map_fst_toList_eq_keys, ExtTreeMap.contains_keys]
    have absent : map.contains key = map[key]?.isSome := ExtTreeMap.contains_eq_isSome_getElem?
    rw [absent, found]
    rfl

theorem getElem?_foldl_insert {entries : List (κ × β)}
    (distinct : entries.Pairwise fun left right => left.1 ≠ right.1) {key : κ} {value : β} :
    (entries.foldl (fun (map : ExtTreeMap κ β) entry => map.insert entry.1 entry.2)
      (∅ : ExtTreeMap κ β))[key]? = some value ↔ (key, value) ∈ entries := by
  rw [← ExtTreeMap.ofList_eq_foldl]
  have apart : entries.Pairwise fun left right => ¬ compare left.1 right.1 = .eq :=
    distinct.imp fun different same => different (LawfulEqOrd.eq_of_compare same)
  constructor
  · intro found
    by_cases listed : ∃ other, (key, other) ∈ entries
    · obtain ⟨other, member⟩ := listed
      rw [ExtTreeMap.getElem?_ofList_of_mem ReflCmp.compare_self apart member] at found
      rwa [← Option.some.inj found]
    · let _ : BEq κ := ⟨fun left right => compare left right == .eq⟩
      have : LawfulBEqCmp (compare : κ → κ → Ordering) := ⟨beq_iff_eq.symm⟩
      have lawful : LawfulBEq κ :=
        { eq_of_beq := fun same => LawfulEqOrd.eq_of_compare (beq_iff_eq.mp same)
          rfl := by
            intro found
            show (compare found found == Ordering.eq) = true
            exact beq_iff_eq.mpr (ReflCmp.compare_self (a := found)) }
      rw [ExtTreeMap.getElem?_ofList_of_contains_eq_false] at found
      · cases found
      · rw [← Bool.not_eq_true, List.contains_iff_mem]
        intro member
        obtain ⟨entry, isEntry, rfl⟩ := List.mem_map.mp member
        exact listed ⟨entry.2, isEntry⟩
  · intro member
    exact ExtTreeMap.getElem?_ofList_of_mem ReflCmp.compare_self apart member

/-- A map that was built from a sorted list has that list as its entries. -/
theorem toList_foldl_insert {before : κ → κ → Prop} [Std.Asymm before]
    (ordered : ∀ map : ExtTreeMap κ β, map.toList.Pairwise fun left right => before left.1 right.1)
    {entries : List (κ × β)} (sorted : entries.Pairwise fun left right => before left.1 right.1) :
    (entries.foldl (fun (map : ExtTreeMap κ β) entry => map.insert entry.1 entry.2)
      (∅ : ExtTreeMap κ β)).toList = entries := by
  have distinct : entries.Pairwise fun left right => left.1 ≠ right.1 :=
    sorted.imp fun {left right} less same => by
      rw [same] at less
      exact Std.Asymm.asymm _ _ less less
  have asymm : Std.Asymm fun left right : κ × β => before left.1 right.1 :=
    ⟨fun left right less => Std.Asymm.asymm _ _ less⟩
  refine List.Pairwise.eq_of_mem_iff (ordered _) sorted fun entry => ?_
  rw [ExtTreeMap.mem_toList_iff_getElem?_eq_some, getElem?_foldl_insert distinct]

/-- A fold that replaces the value of every key by one that is computed from it. -/
theorem tryFold_insert_toList {ε : Type} {convert : κ → β → Except ε β} {map final : ExtTreeMap κ β}
    (folded : Result.tryFold (fun (found : ExtTreeMap κ β) (entry : κ × β) => do
      let value ← convert entry.1 entry.2
      return found.insert entry.1 value) map map.toList = .ok final) (key : κ) :
    match map[key]? with
    | none => final[key]? = none
    | some value => ∃ converted, convert key value = .ok converted ∧ final[key]? = some converted := by
  have stepped : ∀ (total : ExtTreeMap κ β) (entry : κ × β) (next : ExtTreeMap κ β),
      (do let value ← convert entry.1 entry.2
          return total.insert entry.1 value : Except ε (ExtTreeMap κ β)) = .ok next →
      ∃ value, convert entry.1 entry.2 = .ok value ∧ next = total.insert entry.1 value := by
    intro total entry next combined
    obtain ⟨value, converted, same⟩ := Result.bind_eq_ok.mp combined
    exact ⟨value, converted, (Result.pure_eq_ok.mp same).symm⟩
  cases found : map[key]? with
  | none =>
    refine Result.tryFold_induction (fun total => total[key]? = none) found ?_ folded
    intro total entry next member absent combined
    obtain ⟨value, -, rfl⟩ := stepped total entry next combined
    have present := ExtTreeMap.mem_toList_iff_getElem?_eq_some.mp member
    have different : entry.1 ≠ key := by
      rintro rfl
      rw [found] at present
      cases present
    rw [ExtTreeMap.getElem?_insert, if_neg (by simpa using different), absent]
  | some value =>
    have member : (key, value) ∈ map.toList := ExtTreeMap.mem_toList_iff_getElem?_eq_some.mpr found
    refine Result.tryFold_forall (fun entry total => ∃ converted,
      convert entry.1 entry.2 = .ok converted ∧ total[entry.1]? = some converted) ?_ ?_ folded
      (key, value) member
    · intro total entry next _ combined
      obtain ⟨converted, isConverted, rfl⟩ := stepped total entry next combined
      exact ⟨converted, isConverted, by simp⟩
    · rintro total entry next other entryMember otherMember combined ⟨converted, isConverted, kept⟩
      obtain ⟨changed, isChanged, rfl⟩ := stepped total entry next combined
      by_cases same : entry.1 = other.1
      · have left := ExtTreeMap.mem_toList_iff_getElem?_eq_some.mp entryMember
        have right := ExtTreeMap.mem_toList_iff_getElem?_eq_some.mp otherMember
        rw [same, right] at left
        have equal : entry = other := Prod.ext same (Option.some.inj left).symm
        exact ⟨changed, by rw [← equal]; exact isChanged, by rw [same]; simp⟩
      · exact ⟨converted, isConverted, by
          rw [ExtTreeMap.getElem?_insert, if_neg (by simpa using same), kept]⟩

end

section

variable {β : Type}

theorem toList_sorted (map : ExtTreeMap Nat β) :
    map.toList.Pairwise fun left right => left.1 < right.1 :=
  ExtTreeMap.ordered_keys_toList.imp fun ordered => Nat.compare_eq_lt.mp ordered

theorem keys_sorted (map : ExtTreeMap Nat β) : map.keys.Pairwise (· < ·) :=
  ExtTreeMap.ordered_keys.imp fun ordered => Nat.compare_eq_lt.mp ordered

theorem greatest_eq_some {map : ExtTreeMap Nat β} {key : Nat} :
    greatest map = some key ↔ key ∈ map ∧ ∀ other ∈ map, other ≤ key := by
  have sorted := keys_sorted map
  have members : ∀ other, other ∈ map ↔ other ∈ map.keys := fun other => ExtTreeMap.mem_keys.symm
  simp only [greatest, members]
  constructor
  · intro last
    obtain ⟨front, whole⟩ := List.getLast?_eq_some_iff.mp last
    rw [whole] at sorted ⊢
    refine ⟨by simp, fun other member => ?_⟩
    rcases List.mem_append.mp member with inFront | isLast
    · exact Nat.le_of_lt ((List.pairwise_append.mp sorted).2.2 other inFront key (by simp))
    · exact Nat.le_of_eq (List.mem_singleton.mp isLast)
  · rintro ⟨member, above⟩
    cases last : map.keys.getLast? with
    | none => simp [List.getLast?_eq_none_iff.mp last] at member
    | some found =>
      obtain ⟨front, whole⟩ := List.getLast?_eq_some_iff.mp last
      rw [whole] at sorted member above
      rcases List.mem_append.mp member with inFront | isLast
      · have below := (List.pairwise_append.mp sorted).2.2 key inFront found (by simp)
        have := above found (by simp)
        omega
      · rw [List.mem_singleton.mp isLast]

theorem toList_sorted_fin {bound : Nat} (map : ExtTreeMap (Fin bound) β) :
    map.toList.Pairwise fun left right => left.1 < right.1 :=
  ExtTreeMap.ordered_keys_toList.imp fun ordered => LawfulCmp.eq_lt_iff_lt.mp ordered

end

/-! ### Sums over a map -/

section Sums

variable {κ β γ : Type} [Ord κ] [TransOrd κ] [LawfulEqOrd κ]

/-- A number of every entry, summed. -/
def sum (measure : κ → β → Nat) (map : ExtTreeMap κ β) : Nat :=
  (map.toList.map fun entry => measure entry.1 entry.2).sum

theorem nodup_toList (map : ExtTreeMap κ β) : map.toList.Nodup := by
  refine List.Nodup.of_map Prod.fst ?_
  rw [ExtTreeMap.map_fst_toList_eq_keys]
  exact ExtTreeMap.nodup_keys

theorem sum_empty (measure : κ → β → Nat) : sum measure (∅ : ExtTreeMap κ β) = 0 := by
  rw [sum, ExtTreeMap.toList_eq_nil_iff.mpr rfl]
  rfl

/-- The sum depends on the measured entries only. -/
theorem sum_eq_of_entries {measure : κ → β → Nat} {other : κ → γ → Nat} {left : ExtTreeMap κ β}
    {right : ExtTreeMap κ γ}
    (same : ∀ key : κ, left[key]?.map (measure key) = right[key]?.map (other key)) :
    sum measure left = sum other right := by
  have byKeys : ∀ {δ : Type} (measure : κ → δ → Nat) (map : ExtTreeMap κ δ), sum measure map =
      (map.keys.map fun key => (map[key]?.map (measure key)).getD 0).sum := by
    intro δ measure map
    rw [sum, ← ExtTreeMap.map_fst_toList_eq_keys, List.map_map]
    refine congrArg List.sum (List.map_congr_left fun entry member => ?_)
    have found : map[entry.1]? = some entry.2 :=
      ExtTreeMap.mem_toList_iff_getElem?_eq_some.mp member
    simp [found]
  have keys : left.keys.Perm right.keys := by
    refine (List.perm_ext_iff_of_nodup ExtTreeMap.nodup_keys ExtTreeMap.nodup_keys).mpr fun key => ?_
    rw [ExtTreeMap.mem_keys, ExtTreeMap.mem_keys, ExtTreeMap.mem_iff_isSome_getElem?,
      ExtTreeMap.mem_iff_isSome_getElem?]
    have equal := congrArg Option.isSome (same key)
    rw [Option.isSome_map, Option.isSome_map] at equal
    rw [equal]
  rw [byKeys, byKeys]
  simp only [same]
  exact (keys.map _).sum_eq

/-- The inserted entry comes with the entries of the other keys. -/
theorem toList_insert_perm (map : ExtTreeMap κ β) (key : κ) (value : β) :
    (map.insert key value).toList.Perm ((key, value) :: (map.erase key).toList) := by
  refine (List.perm_ext_iff_of_nodup (nodup_toList _) (List.nodup_cons.mpr
    ⟨fun member => ?_, nodup_toList _⟩)).mpr fun entry => ?_
  · have found := ExtTreeMap.mem_toList_iff_getElem?_eq_some.mp member
    simp at found
  · rw [List.mem_cons, ExtTreeMap.mem_toList_iff_getElem?_eq_some,
      ExtTreeMap.mem_toList_iff_getElem?_eq_some, ExtTreeMap.getElem?_insert,
      ExtTreeMap.getElem?_erase]
    obtain ⟨otherKey, otherValue⟩ := entry
    by_cases equal : compare key otherKey = .eq
    · have := LawfulEqOrd.eq_of_compare equal
      subst this
      simp [eq_comm]
    · have different : key ≠ otherKey := fun same => equal (same ▸ ReflCmp.compare_self)
      simp [equal, Ne.symm different]

theorem sum_insert (measure : κ → β → Nat) (map : ExtTreeMap κ β) (key : κ) (value : β) :
    sum measure (map.insert key value) = measure key value + sum measure (map.erase key) := by
  rw [sum, ((toList_insert_perm map key value).map _).sum_eq, List.map_cons, List.sum_cons, sum]

section

variable {measure : κ → β → Nat} {map : ExtTreeMap κ β} {key : κ} {value : β}

theorem insert_of_found (found : map[key]? = some value) : map.insert key value = map := by
  refine ExtTreeMap.ext_getElem? fun other => ?_
  rw [ExtTreeMap.getElem?_insert]
  split_ifs with equal
  · rw [← LawfulEqOrd.eq_of_compare equal, found]
  · rfl

theorem erase_of_absent (absent : map[key]? = none) : map.erase key = map := by
  refine ExtTreeMap.ext_getElem? fun other => ?_
  rw [ExtTreeMap.getElem?_erase]
  split_ifs with equal
  · rw [← LawfulEqOrd.eq_of_compare equal, absent]
  · rfl

theorem sum_of_found (found : map[key]? = some value) :
    sum measure map = measure key value + sum measure (map.erase key) := by
  rw [← sum_insert, insert_of_found found]

theorem sum_of_absent (absent : map[key]? = none) :
    sum measure (map.erase key) = sum measure map := by
  rw [erase_of_absent absent]

theorem size_of_found (found : map[key]? = some value) : map.size = (map.erase key).size + 1 := by
  have size : ∀ map : ExtTreeMap κ β, sum (fun _ _ => 1) map = map.size := by
    intro map
    simp [sum, List.map_const']
  rw [← size, sum_of_found found, size, Nat.add_comm]

theorem le_sum_of_found (found : map[key]? = some value) : measure key value ≤ sum measure map := by
  rw [sum_of_found found]
  exact Nat.le_add_right _ _

end

theorem sum_values (measure : β → Nat) (map : ExtTreeMap κ β) :
    ((values map).map measure).sum = sum (fun _ value => measure value) map := by
  rw [values, List.map_map]
  rfl

theorem countP_values_eq_sum (counts : β → Bool) (map : ExtTreeMap κ β) :
    (values map).countP counts = sum (fun _ value => if counts value then 1 else 0) map := by
  rw [← sum_values]
  induction values map with
  | nil => rfl
  | cons value rest ih =>
    rw [List.countP_cons, List.map_cons, List.sum_cons, ih]
    exact Nat.add_comm _ _

end Sums

end Maps
