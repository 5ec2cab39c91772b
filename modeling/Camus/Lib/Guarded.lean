/-
**Computations whose unchecked operations may go wrong.**

A decoder checks a length before it reads and a bound before it adds. Here its unchecked operations are
partial: a read outside the input, an addition or multiplication that does not fit a word, a
subtraction below zero, a reservation for more than the input can hold, or a loop that does not end
is a `Fault`, and not an error that the decoder returns.

* `Guarded ε` — refuses with an error of the decoder or stops at a fault.
* `permit` — a computation without unchecked operations.

A decoder is safe if its guarded version is `permit` of the plain one, for every input: then no path
of it reaches a fault. The rules below prove such equations step by step.
-/

import Camus.Lib.Bytes
import Camus.Lib.Result

namespace Safety

open Codec Checked Result

variable {bytes : Bytes} {offset left right count width : Nat}

/-- What an unchecked operation can do wrong. -/
inductive Fault where
  | outOfBounds
  | overflow
  | overReserved
  | endless
deriving DecidableEq

/-- A computation that may refuse its input or reach a fault. -/
abbrev Guarded (ε : Type) := Except (Fault ⊕ ε)

variable {α β ε : Type}

/-- A computation that reaches no fault. -/
def permit (value : Except ε α) : Guarded ε α := mapError Sum.inr value

/-- A fault. -/
def fault (reason : Fault) : Guarded ε α := .error (.inl reason)

/-- Reads some bytes at an offset. -/
def readAt (bytes : Bytes) (offset length : Nat) : Guarded ε Bytes :=
  if offset + length ≤ bytes.length then .ok (slice bytes offset length) else fault .outOfBounds

/-- Reads a word at an offset. -/
def wordAt (bytes : Bytes) (offset : Nat) : Guarded ε Nat :=
  if offset + 8 ≤ bytes.length then .ok (readWord bytes offset) else fault .outOfBounds

/-- An addition that nothing checks. -/
def add (left right : Nat) : Guarded ε Nat :=
  if left + right ≤ wordMax then .ok (left + right) else fault .overflow

/-- A multiplication that nothing checks. -/
def mul (left right : Nat) : Guarded ε Nat :=
  if left * right ≤ wordMax then .ok (left * right) else fault .overflow

/-- A subtraction that nothing checks. -/
def sub (left right : Nat) : Guarded ε Nat :=
  if right ≤ left then .ok (left - right) else fault .overflow

/-- Room for some elements of a width, out of the bytes that are left to decode. -/
def reserve (count width available : Nat) : Guarded ε Unit :=
  if count * width ≤ available then .ok () else fault .overReserved

/-- Reads a table of entries of one width, entry by entry. -/
def tableAt (width : Nat) (read : Bytes → Nat → Guarded ε α) (bytes : Bytes) (offset count : Nat) :
    Guarded ε (List α) :=
  tryMap (fun index => do
    let scaled ← mul index width
    let entry ← add offset scaled
    read bytes entry) (List.range count)

/-! ### Rules -/

@[simp] theorem permit_ok (value : α) : permit (.ok value : Except ε α) = .ok value := rfl

@[simp] theorem permit_pure (value : α) : permit (pure value : Except ε α) = pure value := rfl

@[simp] theorem permit_error (reason : ε) :
    permit (.error reason : Except ε α) = .error (.inr reason) := rfl

/-- A sequence of computations without faults has none. -/
theorem permit_bind (first : Except ε α) (next : α → Except ε β) :
    permit (first >>= next) = (permit first >>= fun value => permit (next value)) := by
  cases first <;> rfl

/-- The rule of a sequence: the rest only has to be safe after a first part that succeeds. -/
theorem bind_permit {first : Except ε α} {next : α → Guarded ε β} {plain : α → Except ε β}
    (safe : ∀ value, first = .ok value → next value = permit (plain value)) :
    (permit first >>= next) = permit (first >>= plain) := by
  cases first with
  | ok value => exact safe value rfl
  | error reason => rfl

theorem permit_ite (condition : Prop) [Decidable condition] (yes no : Except ε α) :
    permit (if condition then yes else no) = if condition then permit yes else permit no := by
  split <;> rfl

theorem readAt_of_le {length : Nat} (inside : offset + length ≤ bytes.length) :
    (readAt bytes offset length : Guarded ε Bytes) = .ok (slice bytes offset length) := if_pos inside

theorem wordAt_of_le (inside : offset + 8 ≤ bytes.length) :
    (wordAt bytes offset : Guarded ε Nat) = .ok (readWord bytes offset) := if_pos inside

theorem add_of_le (fits : left + right ≤ wordMax) :
    (add left right : Guarded ε Nat) = .ok (left + right) := if_pos fits

theorem mul_of_le (fits : left * right ≤ wordMax) :
    (mul left right : Guarded ε Nat) = .ok (left * right) := if_pos fits

theorem sub_of_le (fits : right ≤ left) :
    (sub left right : Guarded ε Nat) = .ok (left - right) := if_pos fits

theorem reserve_of_le {available : Nat} (fits : count * width ≤ available) :
    (reserve count width available : Guarded ε Unit) = .ok () := if_pos fits

/-- The rule of a test that has no result. -/
theorem bind_permit_unit {first : Except ε Unit} {next : Guarded ε β} {plain : Except ε β}
    (safe : first = .ok () → next = permit plain) :
    (permit first >>= fun _ => next) = permit (first >>= fun _ => plain) :=
  bind_permit fun _ holds => safe holds

/-- A table that lies inside the input is read without a fault. -/
theorem tableAt_of_le {read : Bytes → Nat → Guarded ε α} {plain : Bytes → Nat → α}
    (inside : offset + count * width ≤ bytes.length) (fits : bytes.length ≤ wordMax)
    (reads : ∀ entry, entry + width ≤ bytes.length → read bytes entry = .ok (plain bytes entry)) :
    tableAt width read bytes offset count = .ok (readEntries width plain bytes offset count) := by
  refine tryMap_eq_map (fun index => plain bytes (offset + index * width)) _ ?_
  intro index member
  have below : (index + 1) * width ≤ count * width :=
    Nat.mul_le_mul_right _ (List.mem_range.mp member)
  rw [Nat.succ_mul] at below
  rw [mul_of_le (by omega), ok_bind, add_of_le (by omega), ok_bind, reads _ (by omega)]

end Safety
