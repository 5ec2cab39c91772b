/-
**Writing a list of slices to a writer that takes what it likes.**

A vectored write loop hands the remaining slices to a writer, which takes some bytes from the front,
is interrupted or fails; the slices are advanced by what was taken. The loop is a function of the
responses of the writer:

* `flatten_advance` — advancing drops bytes of the concatenation.
* `writeAll_append`, `writeAll_handed`, `writeAll_finished` — what was handed over and what is left
  make up the concatenation.
* `writeAll_of_enough` — as long as the writer takes something, the loop ends.
-/

import Mathlib.Data.List.Basic

namespace Vectored

variable {α ε : Type}

/-- Drops a number of elements from the front of some slices, and the slices that become empty. -/
def advance : List (List α) → Nat → List (List α)
  | [], _ => []
  | slice :: rest, count =>
    if slice.length ≤ count then advance rest (count - slice.length) else slice.drop count :: rest

/-- **Advancing drops elements of the concatenation.** -/
theorem flatten_advance (slices : List (List α)) (count : Nat) :
    (advance slices count).flatten = slices.flatten.drop count := by
  induction slices generalizing count with
  | nil => simp [advance]
  | cons slice rest ih =>
    rw [advance]
    split
    · rename_i whole
      rw [ih, List.flatten_cons, List.drop_append, List.drop_of_length_le whole, List.nil_append]
    · rename_i part
      rw [List.flatten_cons, List.flatten_cons, List.drop_append_of_le_length (by omega)]

theorem advance_nonempty {slices : List (List α)} (some : ∀ slice ∈ slices, slice ≠ []) (count : Nat) :
    ∀ slice ∈ advance slices count, slice ≠ [] := by
  induction slices generalizing count with
  | nil => simp [advance]
  | cons slice rest ih =>
    obtain ⟨-, others⟩ := List.forall_mem_cons.mp some
    rw [advance]
    split
    · exact ih others _
    · rename_i part
      refine List.forall_mem_cons.mpr ⟨fun empty => part ?_, others⟩
      exact List.drop_eq_nil_iff.mp empty

/-- What a writer answers to a vectored write. -/
inductive Response (ε : Type)
  | wrote (count : Nat)
  | interrupted
  | failed (reason : ε)

/-- How the loop ends, or what it still has to write when no more answers are known. -/
inductive Ending (α ε : Type)
  | finished
  | failed (reason : ε)
  | waiting (remaining : List (List α))

/-- **The write loop**: what it hands to the writer and how it ends. A write of nothing is an error of
its own; an interruption is tried again. -/
def writeAll (zero : ε) : List (List α) → List (Response ε) → List α × Ending α ε
  | [], _ => ([], .finished)
  | slice :: rest, [] => ([], .waiting (slice :: rest))
  | _ :: _, .wrote 0 :: _ => ([], .failed zero)
  | slice :: rest, .wrote (count + 1) :: later =>
    let (handed, ending) := writeAll zero (advance (slice :: rest) (count + 1)) later
    ((slice :: rest).flatten.take (count + 1) ++ handed, ending)
  | slice :: rest, .interrupted :: later => writeAll zero (slice :: rest) later
  | _ :: _, .failed reason :: _ => ([], .failed reason)

variable {zero : ε}

/-- **What was handed over is always a first part of the concatenation**, and what is left is the
rest. -/
theorem writeAll_append (slices : List (List α)) (responses : List (Response ε)) :
    ∃ rest, (writeAll zero slices responses).1 ++ rest = slices.flatten ∧
      ((writeAll zero slices responses).2 = .finished → rest = []) ∧
      ∀ remaining, (writeAll zero slices responses).2 = .waiting remaining →
        rest = remaining.flatten := by
  induction responses generalizing slices with
  | nil =>
    cases slices with
    | nil => exact ⟨[], rfl, fun _ => rfl, by rintro _ ⟨⟩⟩
    | cons slice rest =>
      refine ⟨(slice :: rest).flatten, rfl, ?_, ?_⟩
      · intro never
        cases never
      · rintro remaining ⟨⟩
        rfl
  | cons response later ih =>
    cases slices with
    | nil => exact ⟨[], rfl, fun _ => rfl, by rintro _ ⟨⟩⟩
    | cons slice rest =>
      cases response with
      | wrote count =>
        cases count with
        | zero => exact ⟨(slice :: rest).flatten, rfl, by rintro ⟨⟩, by rintro _ ⟨⟩⟩
        | succ count =>
          obtain ⟨left, whole, finished, waiting⟩ := ih (advance (slice :: rest) (count + 1))
          refine ⟨left, ?_, finished, waiting⟩
          show (slice :: rest).flatten.take (count + 1) ++ _ ++ left = _
          rw [List.append_assoc, whole, flatten_advance, List.take_append_drop]
      | interrupted => exact ih (slice :: rest)
      | failed reason => exact ⟨(slice :: rest).flatten, rfl, by rintro ⟨⟩, by rintro _ ⟨⟩⟩

theorem writeAll_handed (slices : List (List α)) (responses : List (Response ε)) :
    (writeAll zero slices responses).1 <+: slices.flatten := by
  obtain ⟨rest, whole, -⟩ := writeAll_append slices responses
  exact ⟨rest, whole⟩

theorem writeAll_finished {slices : List (List α)} {responses : List (Response ε)}
    (finished : (writeAll zero slices responses).2 = .finished) :
    (writeAll zero slices responses).1 = slices.flatten := by
  obtain ⟨rest, whole, ends, -⟩ := writeAll_append slices responses
  rw [← whole, ends finished, List.append_nil]

/-- The number of writes in some answers. -/
def writes : List (Response ε) → Nat
  | [] => 0
  | .wrote _ :: later => writes later + 1
  | _ :: later => writes later

/-- The answers of a writer that is interrupted or takes something. -/
def Taking (responses : List (Response ε)) : Prop :=
  ∀ response ∈ responses, response = .interrupted ∨ ∃ count, response = .wrote (count + 1)

/-- **The loop ends**, as long as the writer takes something: no slice is empty, so every write takes at
least one element. -/
theorem writeAll_of_enough {slices : List (List α)} {responses : List (Response ε)}
    (some : ∀ slice ∈ slices, slice ≠ []) (taking : Taking responses)
    (enough : slices.flatten.length ≤ writes responses) :
    (writeAll zero slices responses).2 = .finished := by
  induction responses generalizing slices with
  | nil =>
    cases slices with
    | nil => rfl
    | cons slice rest =>
      obtain ⟨nonempty, -⟩ := List.forall_mem_cons.mp some
      have positive := List.length_pos_of_ne_nil nonempty
      rw [List.flatten_cons, List.length_append] at enough
      exact absurd enough (by simp only [writes]; omega)
  | cons response later ih =>
    obtain ⟨first, takingLater⟩ := List.forall_mem_cons.mp taking
    cases slices with
    | nil => rfl
    | cons slice rest =>
      rcases first with rfl | ⟨count, rfl⟩
      · exact ih some takingLater enough
      · refine ih (advance_nonempty some _) takingLater ?_
        rw [flatten_advance, List.length_drop]
        simp only [writes] at enough
        omega

end Vectored
