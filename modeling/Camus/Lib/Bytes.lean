/-
**Little-endian words and slices of byte strings.**

A fixed binary layout is a concatenation of fields, and a reader of it takes slices at known
offsets. `word` and `readWord` are the eight-byte little-endian codec; `slice_append_left` and
`slice_append_right` move a slice to the field it lies in, so that decoding a layout that was just
encoded is a chain of these two steps and `readWord_word`.
-/

import Camus.Lib.Checked
import Mathlib.Data.List.Basic

namespace Codec

open Checked

variable {offset length start width : Nat}

/-- A byte string. -/
abbrev Bytes := List UInt8

/-- The `width` least significant bytes of `value`, least significant first. -/
def littleEndian : Nat → Nat → Bytes
  | 0, _ => []
  | width + 1, value => UInt8.ofNat value :: littleEndian width (value / 256)

/-- The number a little-endian byte string denotes. -/
def fromLittleEndian : Bytes → Nat
  | [] => 0
  | byte :: rest => byte.toNat + 256 * fromLittleEndian rest

/-- The eight bytes of a word. -/
def word (value : Nat) : Bytes := littleEndian 8 value

/-- The bytes `offset .. offset + length`, cut off at the end of the string. -/
def slice (bytes : Bytes) (offset length : Nat) : Bytes := (bytes.drop offset).take length

/-- The word at an offset. -/
def readWord (bytes : Bytes) (offset : Nat) : Nat := fromLittleEndian (slice bytes offset 8)

@[simp] theorem littleEndian_length (width value : Nat) :
    (littleEndian width value).length = width := by
  induction width generalizing value with
  | zero => rfl
  | succ width ih => simp [littleEndian, ih]

@[simp] theorem word_length (value : Nat) : (word value).length = 8 := littleEndian_length 8 value

theorem fromLittleEndian_littleEndian (width value : Nat) :
    fromLittleEndian (littleEndian width value) = value % 256 ^ width := by
  induction width generalizing value with
  | zero => simp [littleEndian, fromLittleEndian, Nat.mod_one]
  | succ width ih =>
    have byte : (UInt8.ofNat value).toNat = value % 256 := by simp
    rw [littleEndian, fromLittleEndian, ih, byte, Nat.pow_succ', Nat.mod_mul]

theorem fromLittleEndian_lt (bytes : Bytes) : fromLittleEndian bytes < 256 ^ bytes.length := by
  induction bytes with
  | nil => simp [fromLittleEndian]
  | cons byte rest ih =>
    have bound : byte.toNat < 256 := byte.toNat_lt
    rw [fromLittleEndian, List.length_cons, Nat.pow_succ']
    omega

/-- Reading a word never exceeds the greatest word. -/
theorem readWord_le (bytes : Bytes) (offset : Nat) : readWord bytes offset ≤ wordMax := by
  have bound := fromLittleEndian_lt (slice bytes offset 8)
  have short : (slice bytes offset 8).length ≤ 8 := List.length_take_le _ _
  have power : (256 : Nat) ^ (slice bytes offset 8).length ≤ 256 ^ 8 :=
    Nat.pow_le_pow_right (by decide) short
  have eight : (256 : Nat) ^ 8 = wordMax + 1 := by decide
  unfold readWord
  omega

/-! ### Slices of concatenations -/

@[simp] theorem slice_append_left {left right : Bytes} (inside : offset + length ≤ left.length) :
    slice (left ++ right) offset length = slice left offset length := by
  unfold slice
  rw [List.drop_append_of_le_length (by omega),
    List.take_append_of_le_length (by rw [List.length_drop]; omega)]

@[simp] theorem slice_append_right {left right : Bytes} (after : left.length ≤ offset) :
    slice (left ++ right) offset length = slice right (offset - left.length) length := by
  unfold slice
  rw [List.drop_append, List.drop_eq_nil_of_le after, List.nil_append]

@[simp] theorem slice_all {bytes : Bytes} (exact : bytes.length = length) :
    slice bytes 0 length = bytes := by
  subst exact
  simp [slice]

theorem slice_length {bytes : Bytes} (inside : offset + length ≤ bytes.length) :
    (slice bytes offset length).length = length := by
  unfold slice
  rw [List.length_take, List.length_drop]
  omega

/-- The field that starts where the bytes before it end. -/
theorem slice_append_exact {before field after : Bytes} (start : before.length = offset)
    (size : field.length = length) : slice (before ++ (field ++ after)) offset length = field := by
  rw [slice_append_right (by omega), slice_append_left (by omega), start, Nat.sub_self,
    slice_all size]

@[simp] theorem readWord_append_left {left right : Bytes} (inside : offset + 8 ≤ left.length) :
    readWord (left ++ right) offset = readWord left offset := by
  unfold readWord
  rw [slice_append_left inside]

@[simp] theorem readWord_append_right {left right : Bytes} (after : left.length ≤ offset) :
    readWord (left ++ right) offset = readWord right (offset - left.length) := by
  unfold readWord
  rw [slice_append_right after]

/-- A word reads back as itself. -/
@[simp] theorem readWord_word {value : Nat} (fits : value ≤ wordMax) : readWord (word value) 0 = value := by
  unfold readWord
  rw [slice_all (word_length value), word, fromLittleEndian_littleEndian]
  have eight : (256 : Nat) ^ 8 = wordMax + 1 := by decide
  rw [eight]
  exact Nat.mod_eq_of_lt (by omega)

/-! ### Bytes that were read are written again -/

theorem littleEndian_fromLittleEndian (bytes : Bytes) :
    littleEndian bytes.length (fromLittleEndian bytes) = bytes := by
  induction bytes with
  | nil => rfl
  | cons byte rest ih =>
    have bound : byte.toNat < 256 := byte.toNat_lt
    have low : UInt8.ofNat (byte.toNat + 256 * fromLittleEndian rest) = byte := by
      apply UInt8.toNat_inj.mp
      rw [UInt8.toNat_ofNat']
      omega
    have high : (byte.toNat + 256 * fromLittleEndian rest) / 256 = fromLittleEndian rest := by
      omega
    rw [List.length_cons, littleEndian, fromLittleEndian, low, high, ih]

/-- A word that lies inside a string is written back as the bytes it was read from. -/
theorem word_readWord {bytes : Bytes} (inside : offset + 8 ≤ bytes.length) :
    word (readWord bytes offset) = slice bytes offset 8 := by
  have written := littleEndian_fromLittleEndian (slice bytes offset 8)
  rw [slice_length inside] at written
  exact written

/-- Neighbouring slices join. -/
theorem slice_add (bytes : Bytes) (offset left right : Nat) :
    slice bytes offset (left + right) = slice bytes offset left ++ slice bytes (offset + left) right := by
  unfold slice
  rw [List.take_add, List.drop_drop]

theorem slice_slice {bytes : Bytes} {size : Nat} (inside : start + size ≤ length) :
    slice (slice bytes offset length) start size = slice bytes (offset + start) size := by
  unfold slice
  rw [List.drop_take, List.take_take, List.drop_drop, Nat.min_eq_left (by omega)]

theorem readWord_slice {bytes : Bytes} (inside : start + 8 ≤ length) :
    readWord (slice bytes offset length) start = readWord bytes (offset + start) := by
  unfold readWord
  rw [slice_slice inside]

/-! ### Tables of fixed-width entries -/

section Entries

variable {α : Type}

/-- Reads a table of entries of one width. -/
def readEntries (width : Nat) (read : Bytes → Nat → α) (bytes : Bytes) (offset count : Nat) :
    List α :=
  (List.range count).map fun index => read bytes (offset + index * width)

theorem flatMap_length {encode : α → Bytes} (sized : ∀ a, (encode a).length = width)
    (items : List α) : (items.flatMap encode).length = items.length * width := by
  induction items with
  | nil => simp
  | cons first rest ih =>
    rw [List.flatMap_cons, List.length_append, sized, ih, List.length_cons, Nat.succ_mul,
      Nat.add_comm]

/-- A table of entries reads back as itself, wherever it stands. -/
theorem readEntries_flatMap (read : Bytes → Nat → α) {encode : α → Bytes}
    (sized : ∀ a, (encode a).length = width) (before : Bytes) (items : List α) (after : Bytes)
    (reads : ∀ a ∈ items, ∀ before after, read (before ++ (encode a ++ after)) before.length = a) :
    readEntries width read (before ++ (items.flatMap encode ++ after)) before.length items.length =
      items := by
  induction items generalizing before with
  | nil => rfl
  | cons first rest ih =>
    have tail := ih (before ++ encode first) fun a member => reads a (List.mem_cons_of_mem _ member)
    rw [List.append_assoc] at tail
    unfold readEntries at tail ⊢
    rw [List.length_cons, List.range_succ_eq_map, List.map_cons, List.flatMap_cons,
      List.append_assoc]
    congr 1
    · rw [Nat.zero_mul, Nat.add_zero]
      exact reads first List.mem_cons_self before _
    · rw [List.map_map]
      refine Eq.trans (List.map_congr_left fun index _ => ?_) tail
      show read _ (before.length + (index + 1) * width) = _
      rw [List.length_append, sized, Nat.succ_mul]
      congr 1
      omega

/-- A table of entries is written back as the bytes it was read from. -/
theorem flatMap_readEntries (read : Bytes → Nat → α) {encode : α → Bytes} {bytes : Bytes}
    {count : Nat} (writes : ∀ index < count, encode (read bytes (offset + index * width)) =
      slice bytes (offset + index * width) width) :
    (readEntries width read bytes offset count).flatMap encode = slice bytes offset (count * width) := by
  induction count with
  | zero => simp [readEntries, slice]
  | succ count ih =>
    have front := ih fun index below => writes index (Nat.lt_succ_of_lt below)
    unfold readEntries at front ⊢
    rw [List.range_succ, List.map_append, List.flatMap_append, front, Nat.succ_mul, slice_add]
    simp [writes count (Nat.lt_succ_self count)]

end Entries

end Codec
