/-
**Checked 64-bit arithmetic on natural numbers.**

A machine word is a natural number together with the checks that the operations on it make:
`checkedAdd`, `checkedSub` and `checkedMul` answer `none` where the word would overflow,
`saturatingAdd` stops at the greatest word. Every operation has one characterising lemma, so that a
proof about a chain of checks is linear arithmetic from there on.
-/

import Mathlib.Algebra.Ring.Nat
import Mathlib.Tactic.Common

namespace Checked

variable {left right value : Nat}

/-- The greatest 64-bit word. -/
def wordMax : Nat := 18446744073709551615

theorem wordMax_eq : wordMax = 2 ^ 64 - 1 := rfl

/-- Addition that fails on overflow. -/
def checkedAdd (left right : Nat) : Option Nat :=
  if left + right ≤ wordMax then some (left + right) else none

/-- Subtraction that fails on underflow. -/
def checkedSub (left right : Nat) : Option Nat :=
  if right ≤ left then some (left - right) else none

/-- Multiplication that fails on overflow. -/
def checkedMul (left right : Nat) : Option Nat :=
  if left * right ≤ wordMax then some (left * right) else none

/-- Addition that stops at the greatest word. -/
def saturatingAdd (left right : Nat) : Nat := min (left + right) wordMax

/-- A length as a word, if it is one. -/
def toWord (value : Nat) : Option Nat := if value ≤ wordMax then some value else none

/-- Division rounded up. -/
def divCeil (value unit : Nat) : Nat := (value + unit - 1) / unit

theorem checkedAdd_eq_some {sum : Nat} :
    checkedAdd left right = some sum ↔ left + right = sum ∧ sum ≤ wordMax := by
  unfold checkedAdd
  split
  · rename_i fits
    constructor
    · intro equal
      cases equal
      exact ⟨rfl, fits⟩
    · rintro ⟨rfl, -⟩
      rfl
  · rename_i overflow
    constructor
    · intro impossible
      cases impossible
    · rintro ⟨rfl, fits⟩
      exact absurd fits overflow

theorem checkedAdd_of_le (fits : left + right ≤ wordMax) :
    checkedAdd left right = some (left + right) := if_pos fits

theorem checkedSub_eq_some {difference : Nat} :
    checkedSub left right = some difference ↔ left = difference + right := by
  unfold checkedSub
  split <;> simp <;> omega

theorem checkedMul_eq_some {product : Nat} :
    checkedMul left right = some product ↔ left * right = product ∧ product ≤ wordMax := by
  unfold checkedMul
  split
  · rename_i fits
    constructor
    · intro equal
      cases equal
      exact ⟨rfl, fits⟩
    · rintro ⟨rfl, -⟩
      rfl
  · rename_i overflow
    constructor
    · intro impossible
      cases impossible
    · rintro ⟨rfl, fits⟩
      exact absurd fits overflow

theorem checkedMul_of_le (fits : left * right ≤ wordMax) :
    checkedMul left right = some (left * right) := if_pos fits

theorem toWord_eq_some {word : Nat} : toWord value = some word ↔ value = word ∧ word ≤ wordMax := by
  unfold toWord
  split <;> simp <;> omega

theorem toWord_of_le (fits : value ≤ wordMax) : toWord value = some value :=
  if_pos fits

end Checked
