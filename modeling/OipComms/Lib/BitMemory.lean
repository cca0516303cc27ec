import Mathlib.Data.Nat.Bitwise
import OipComms.Lib.Slice

/-!
# A memory of bits

A memory addressed by the bit, eight bits to the byte, as an industrial controller has it. A store
puts one bit or a string of bytes; a byte is read off its eight bits, a window is a string of
bytes. The laws say what each store does to each bit and to each byte, and how windows are cut and
joined.
-/

namespace OipComms.BitMemory

open Slice

/-- The bits by their addresses. -/
abbrev Bits := Nat → Bool

/-- The byte at a byte address. -/
def byteAt (m : Bits) (i : Nat) : UInt8 := UInt8.ofNat (Nat.ofBits fun k : Fin 8 => m (8 * i + k))

/-- One bit stored. -/
def storeBit (m : Bits) (k : Nat) (b : Bool) : Bits := fun j => if j = k then b else m j

/-- Bytes stored from a byte address on. -/
def storeBytes (m : Bits) (i : Nat) (bytes : List UInt8) : Bits := fun j =>
  if i ≤ j / 8 ∧ j / 8 < i + bytes.length then (bytes.getD (j / 8 - i) 0).toNat.testBit (j % 8)
  else m j

/-- The bytes from a byte address on. -/
def window (m : Bits) (i n : Nat) : List UInt8 := (List.range n).map fun k => byteAt m (i + k)

/-- The bits of a byte are those at its place. -/
theorem testBit_byteAt (m : Bits) (i : Nat) {k : Nat} (hk : k < 8) :
    (byteAt m i).toNat.testBit k = m (8 * i + k) := by
  have hlt := Nat.ofBits_lt_two_pow fun k : Fin 8 => m (8 * i + k)
  rw [byteAt, UInt8.toNat_ofNat', Nat.mod_eq_of_lt hlt, Nat.testBit_ofBits_lt _ k hk]

/-- A byte is its bits. -/
theorem byteAt_eq_iff {m : Bits} {i : Nat} {b : UInt8} :
    byteAt m i = b ↔ ∀ k < 8, m (8 * i + k) = b.toNat.testBit k := by
  constructor
  · rintro rfl k hk
    exact (testBit_byteAt m i hk).symm
  · intro h
    apply UInt8.toNat_inj.mp
    apply Nat.eq_of_testBit_eq
    intro k
    by_cases hk : k < 8
    · rw [testBit_byteAt m i hk, h k hk]
    · have hpow : 2 ^ 8 ≤ 2 ^ k := Nat.pow_le_pow_right (by omega) (by omega)
      have hleft := (byteAt m i).toNat_lt
      have hright := b.toNat_lt
      rw [Nat.testBit_lt_two_pow (by omega), Nat.testBit_lt_two_pow (by omega)]

/-- A byte depends on its own bits. -/
theorem byteAt_congr {m m' : Bits} {i : Nat} (h : ∀ k < 8, m (8 * i + k) = m' (8 * i + k)) :
    byteAt m i = byteAt m' i := by
  apply byteAt_eq_iff.mpr
  intro k hk
  rw [h k hk, testBit_byteAt m' i hk]

/-- Stored bytes are the bytes there, and no other byte changes. -/
theorem byteAt_storeBytes (m : Bits) (i : Nat) (bytes : List UInt8) (j : Nat) :
    byteAt (storeBytes m i bytes) j =
      if i ≤ j ∧ j < i + bytes.length then bytes.getD (j - i) 0 else byteAt m j := by
  apply byteAt_eq_iff.mpr
  intro k hk
  have hdiv : (8 * j + k) / 8 = j := by omega
  have hmod : (8 * j + k) % 8 = k := by omega
  rw [storeBytes, hdiv, hmod]
  by_cases hin : i ≤ j ∧ j < i + bytes.length
  · rw [if_pos hin, if_pos hin]
  · rw [if_neg hin, if_neg hin, testBit_byteAt m j hk]

/-- A window is as long as it is asked to be. -/
@[simp] theorem length_window (m : Bits) (i n : Nat) : (window m i n).length = n := by
  rw [window, List.length_map, List.length_range]

/-- What stands at a place of a window. -/
theorem getElem?_window (m : Bits) (i n k : Nat) :
    (window m i n)[k]? = if k < n then some (byteAt m (i + k)) else none := by
  rw [window, List.getElem?_map]
  by_cases hk : k < n
  · rw [List.getElem?_range hk, if_pos hk, Option.map_some]
  · rw [List.getElem?_eq_none (by rw [List.length_range]; omega), if_neg hk, Option.map_none]

/-- A window depends on its own bytes. -/
theorem window_congr {m m' : Bits} {i n : Nat}
    (h : ∀ j, i ≤ j → j < i + n → byteAt m j = byteAt m' j) : window m i n = window m' i n := by
  apply List.ext_getElem?
  intro k
  rw [getElem?_window, getElem?_window]
  by_cases hk : k < n
  · rw [if_pos hk, if_pos hk, h (i + k) (by omega) (by omega)]
  · rw [if_neg hk, if_neg hk]

/-- Stored bytes are read back. -/
theorem window_storeBytes (m : Bits) (i : Nat) (bytes : List UInt8) :
    window (storeBytes m i bytes) i bytes.length = bytes := by
  apply List.ext_getElem?
  intro k
  rw [getElem?_window]
  by_cases hk : k < bytes.length
  · rw [if_pos hk, byteAt_storeBytes, if_pos (by omega), Nat.add_sub_cancel_left,
      List.getD_eq_getElem?_getD, List.getElem?_eq_getElem hk, Option.getD_some]
  · rw [if_neg hk, List.getElem?_eq_none (by omega)]

/-- Two windows end to end. -/
theorem window_append (m : Bits) (i n k : Nat) :
    window m i n ++ window m (i + n) k = window m i (n + k) := by
  apply List.ext_getElem?
  intro j
  by_cases hj : j < n
  · rw [List.getElem?_append_left (by rw [length_window]; exact hj), getElem?_window,
      getElem?_window, if_pos hj, if_pos (by omega)]
  · rw [List.getElem?_append_right (by rw [length_window]; omega), length_window, getElem?_window,
      getElem?_window, show i + n + (j - n) = i + j by omega]
    by_cases hk : j < n + k
    · rw [if_pos (by omega), if_pos hk]
    · rw [if_neg (by omega), if_neg hk]

/-- A part of a window. -/
theorem slice_window (m : Bits) {i n k w : Nat} (h : k + w ≤ n) :
    slice (window m i n) k w = window m (i + k) w := by
  apply List.ext_getElem?
  intro j
  rw [getElem?_slice, getElem?_window, getElem?_window]
  by_cases hj : j < w
  · rw [if_pos hj, if_pos (by omega), if_pos hj, Nat.add_assoc]
  · rw [if_neg hj, if_neg hj]

end OipComms.BitMemory
