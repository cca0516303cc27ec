import Mathlib.Data.List.Basic

/-!
# Slices of a byte buffer

`slice l off n` is the part of a buffer that a pointer and a length name, `overwrite` what a copy
to a pointer does. Inside the buffer the two are a lens: what was copied is read back, every slice
that does not meet it is unchanged, and the buffer keeps its length.
-/

namespace OipComms.Slice

universe u

variable {α : Type u}

/-- The `n` elements from offset `off` on. -/
def slice (l : List α) (off n : Nat) : List α := (l.drop off).take n

/-- Elements copied over a buffer from an offset on. -/
def overwrite (l : List α) (off : Nat) (new : List α) : List α :=
  l.take off ++ new ++ l.drop (off + new.length)

/-- A slice is cut off at the end of the list. -/
@[simp] theorem length_slice (l : List α) (off n : Nat) :
    (slice l off n).length = min n (l.length - off) := by
  simp only [slice, List.length_take, List.length_drop]

/-- What is overwritten inside keeps the length. -/
theorem length_overwrite {l : List α} {off : Nat} {new : List α} (h : off + new.length ≤ l.length) :
    (overwrite l off new).length = l.length := by
  simp only [overwrite, List.length_append, List.length_take, List.length_drop]
  omega

/-- What stands at a place after a list is overwritten. -/
theorem getElem?_overwrite {l : List α} {off : Nat} {new : List α} (h : off ≤ l.length) (i : Nat) :
    (overwrite l off new)[i]? =
      if off ≤ i ∧ i < off + new.length then new[i - off]? else l[i]? := by
  have htake : (l.take off).length = off := List.length_take_of_le h
  simp only [overwrite, List.append_assoc]
  by_cases hlow : i < off
  · rw [List.getElem?_append_left (by omega), List.getElem?_take_of_lt hlow,
      if_neg (by omega)]
  · rw [List.getElem?_append_right (by omega), htake]
    by_cases hin : i < off + new.length
    · rw [List.getElem?_append_left (by omega), if_pos ⟨by omega, hin⟩]
    · rw [List.getElem?_append_right (by omega), List.getElem?_drop, if_neg (by omega)]
      congr 1
      omega

/-- What stands at a place of a slice. -/
theorem getElem?_slice (l : List α) (off n i : Nat) :
    (slice l off n)[i]? = if i < n then l[off + i]? else none := by
  simp only [slice, List.getElem?_take, List.getElem?_drop]

/-- What was copied is read back. -/
theorem slice_overwrite_self {l : List α} {off : Nat} {new : List α} (h : off ≤ l.length) :
    slice (overwrite l off new) off new.length = new := by
  have htake : (l.take off).length = off := List.length_take_of_le h
  rw [slice, overwrite, List.append_assoc, List.drop_append_of_le_length (by omega),
    List.drop_of_length_le (by omega), List.nil_append, List.take_left']
  rfl

/-- A slice that does not meet the copy is unchanged. -/
theorem slice_overwrite_disjoint {l : List α} {off : Nat} {new : List α} {at' n : Nat}
    (h : off ≤ l.length) (hdisj : at' + n ≤ off ∨ off + new.length ≤ at') :
    slice (overwrite l off new) at' n = slice l at' n := by
  apply List.ext_getElem?
  intro i
  rw [getElem?_slice, getElem?_slice]
  by_cases hi : i < n
  · rw [if_pos hi, if_pos hi, getElem?_overwrite h, if_neg (by omega)]
  · rw [if_neg hi, if_neg hi]

/-- A slice of a slice is one of the list. -/
theorem slice_slice (l : List α) {off n k m : Nat} (h : k + m ≤ n) :
    slice (slice l off n) k m = slice l (off + k) m := by
  apply List.ext_getElem?
  intro i
  simp only [getElem?_slice]
  by_cases hi : i < m
  · rw [if_pos hi, if_pos hi, if_pos (by omega), Nat.add_assoc]
  · rw [if_neg hi, if_neg hi]

/-- A slice of the front part of a buffer, or of the part behind it. -/
theorem slice_append_left {l r : List α} {off n : Nat} (h : off + n ≤ l.length) :
    slice (l ++ r) off n = slice l off n := by
  rw [slice, slice, List.drop_append_of_le_length (by omega),
    List.take_append_of_le_length (by rw [List.length_drop]; omega)]

/-- A slice behind the first list is one of the second. -/
theorem slice_append_right {l r : List α} {off n : Nat} (h : l.length ≤ off) :
    slice (l ++ r) off n = slice r (off - l.length) n := by
  rw [slice, slice, List.drop_append, List.drop_of_length_le h, List.nil_append]

/-- A copy to the front of a buffer stands in front of the rest. -/
theorem take_overwrite_zero (l new : List α) : (overwrite l 0 new).take new.length = new := by
  rw [overwrite, List.take_zero, List.nil_append, List.take_left' rfl]

/-- A slice of what was written is a slice of the new. -/
theorem slice_overwrite_zero {l new : List α} {off n : Nat} (h : off + n ≤ new.length) :
    slice (overwrite l 0 new) off n = slice new off n := by
  rw [overwrite, List.take_zero, List.nil_append, slice_append_left h]

/-- A copy behind another is one copy of both. -/
theorem overwrite_overwrite {l : List α} {off : Nat} (h : off ≤ l.length) (front back : List α) :
    overwrite (overwrite l off front) (off + front.length) back = overwrite l off (front ++ back) := by
  have htake : (l.take off ++ front).length = off + front.length := by
    rw [List.length_append, List.length_take_of_le h]
  rw [overwrite, overwrite, overwrite, ← htake, List.take_left' rfl, List.drop_append,
    List.drop_of_length_le (by omega), List.nil_append, Nat.add_sub_cancel_left, List.drop_drop,
    List.length_append, List.append_assoc (l.take off) front back, Nat.add_assoc,
    List.length_take_of_le h, List.length_append]

/-- Pieces of one size laid end to end: their total, and each of them by its index. -/
theorem slice_flatMap_range {w : Nat} {piece : Nat → List α} {n : Nat}
    (h : ∀ i < n, (piece i).length = w) :
    ((List.range n).flatMap piece).length = n * w ∧
    ∀ i < n, slice ((List.range n).flatMap piece) (i * w) w = piece i := by
  induction n with
  | zero =>
    refine ⟨?_, fun i hi => absurd hi (Nat.not_lt_zero i)⟩
    rw [List.range_zero, List.flatMap_nil, List.length_nil, Nat.zero_mul]
  | succ n ih =>
    obtain ⟨hlen, hpieces⟩ := ih fun i hi => h i (Nat.lt_succ_of_lt hi)
    have hlast := h n (Nat.lt_succ_self n)
    rw [List.range_succ, List.flatMap_append, List.flatMap_singleton]
    constructor
    · rw [List.length_append, hlen, hlast, Nat.succ_mul]
    · intro i hi
      rcases Nat.lt_succ_iff_lt_or_eq.mp hi with hlt | rfl
      · have hin : i * w + w ≤ n * w := by
          rw [← Nat.succ_mul]
          exact Nat.mul_le_mul_right w hlt
        rw [slice_append_left (by omega), hpieces i hlt]
      · rw [slice_append_right (by omega), hlen, Nat.sub_self, slice, List.drop_zero, ← hlast,
          List.take_length]

end OipComms.Slice
