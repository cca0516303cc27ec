import Mathlib.Algebra.Order.Group.Nat
import Mathlib.Data.Nat.Bitwise
import Mathlib.Tactic.Ring

/-!
# Big-endian byte strings

The codec behind every multi-byte field of a wire format: `toBE w n` is the low `w` bytes of `n`,
most significant first, and `ofBE` reads a byte string back. The laws are the two round trips, the
splitting of a string in two, and the reading of one bit of the number off one byte of the string.
-/

namespace OipComms.BigEndian

/-- The `w` low bytes of `n`, most significant first. -/
def toBE : Nat → Nat → List UInt8
  | 0, _ => []
  | w + 1, n => UInt8.ofNat (n / 256 ^ w) :: toBE w n

/-- The number a byte string denotes, most significant byte first. -/
def ofBE (bytes : List UInt8) : Nat := bytes.foldl (fun acc b => acc * 256 + b.toNat) 0

/-- A number has as many bytes as it is written with. -/
@[simp] theorem length_toBE (w n : Nat) : (toBE w n).length = w := by
  induction w with
  | zero => rfl
  | succ w ih => simp only [toBE, List.length_cons, ih]

@[simp] theorem ofBE_nil : ofBE [] = 0 := rfl

/-- What comes before is shifted by the bytes that follow. -/
private theorem foldl_ofBE (bytes : List UInt8) (acc : Nat) :
    bytes.foldl (fun acc b => acc * 256 + b.toNat) acc = acc * 256 ^ bytes.length + ofBE bytes := by
  induction bytes generalizing acc with
  | nil => simp
  | cons b bytes ih =>
    simp only [List.foldl_cons, List.length_cons, ofBE]
    rw [ih, ih (0 * 256 + b.toNat)]
    ring

/-- The first byte is the highest. -/
theorem ofBE_cons (b : UInt8) (bytes : List UInt8) :
    ofBE (b :: bytes) = b.toNat * 256 ^ bytes.length + ofBE bytes := by
  have h := foldl_ofBE bytes (0 * 256 + b.toNat)
  simpa only [ofBE, List.foldl_cons, Nat.zero_mul, Nat.zero_add] using h

/-- A string of zeros. -/
theorem ofBE_replicate_zero (w : Nat) : ofBE (List.replicate w 0) = 0 := by
  induction w with
  | zero => rfl
  | succ w ih => rw [List.replicate_succ, ofBE_cons, ih, UInt8.toNat_zero, Nat.zero_mul]

/-- A string read in two parts. -/
theorem ofBE_append (front back : List UInt8) :
    ofBE (front ++ back) = ofBE front * 256 ^ back.length + ofBE back := by
  rw [ofBE, List.foldl_append, foldl_ofBE]
  rfl

/-- Bytes are below the power of their number. -/
theorem ofBE_lt (bytes : List UInt8) : ofBE bytes < 256 ^ bytes.length := by
  induction bytes with
  | nil => simp
  | cons b bytes ih =>
    have hb : b.toNat + 1 ≤ 256 := b.toNat_lt
    calc ofBE (b :: bytes) = b.toNat * 256 ^ bytes.length + ofBE bytes := ofBE_cons b bytes
      _ < b.toNat * 256 ^ bytes.length + 256 ^ bytes.length := by omega
      _ = (b.toNat + 1) * 256 ^ bytes.length := by ring
      _ ≤ 256 * 256 ^ bytes.length := Nat.mul_le_mul_right _ hb
      _ = 256 ^ (b :: bytes).length := by rw [List.length_cons, Nat.pow_succ, Nat.mul_comm]

/-- Reading back what was written: the number modulo the width. -/
theorem ofBE_toBE (w n : Nat) : ofBE (toBE w n) = n % 256 ^ w := by
  induction w with
  | zero => simp [toBE, Nat.mod_one]
  | succ w ih =>
    have hsplit : n % 256 ^ (w + 1) = n % 256 ^ w + 256 ^ w * (n / 256 ^ w % 256) := by
      rw [Nat.pow_succ, Nat.mod_mul]
    rw [toBE, ofBE_cons, ih, length_toBE, UInt8.toNat_ofNat', hsplit]
    ring

/-- A number that fits is read back. -/
theorem ofBE_toBE_of_lt {w n : Nat} (h : n < 256 ^ w) : ofBE (toBE w n) = n := by
  rw [ofBE_toBE, Nat.mod_eq_of_lt h]

/-- Only the low `w` bytes of the number matter. -/
theorem toBE_mod (w n : Nat) : ∀ k, w ≤ k → toBE w (n % 256 ^ k) = toBE w n := by
  induction w with
  | zero => intro k _; rfl
  | succ w ih =>
    intro k hk
    obtain ⟨d, rfl⟩ := Nat.exists_eq_add_of_lt (Nat.lt_of_succ_le hk)
    have hdvd : (256 : Nat) ^ (w + d + 1) = 256 ^ w * 256 ^ (d + 1) := by rw [← Nat.pow_add, Nat.add_assoc]
    have hhead : n % 256 ^ (w + d + 1) / 256 ^ w % 256 = n / 256 ^ w % 256 := by
      rw [hdvd, Nat.mod_mul_right_div_self]
      exact Nat.mod_mod_of_dvd _ (dvd_pow_self 256 (Nat.succ_ne_zero d))
    simp only [toBE, List.cons.injEq]
    refine ⟨?_, ih _ (by omega)⟩
    rw [← UInt8.toNat_inj, UInt8.toNat_ofNat', UInt8.toNat_ofNat']
    exact hhead

/-- Writing back what was read: the string itself. -/
theorem toBE_ofBE (bytes : List UInt8) : toBE bytes.length (ofBE bytes) = bytes := by
  induction bytes with
  | nil => rfl
  | cons b bytes ih =>
    have hlt := ofBE_lt bytes
    have hpos : 0 < 256 ^ bytes.length := Nat.pow_pos (by omega)
    rw [List.length_cons, toBE, ofBE_cons]
    congr 1
    · rw [← UInt8.toNat_inj, UInt8.toNat_ofNat', Nat.mul_comm, Nat.mul_add_div hpos,
        Nat.div_eq_of_lt hlt, Nat.add_zero]
      exact Nat.mod_eq_of_lt b.toNat_lt
    · rw [← toBE_mod bytes.length _ bytes.length (Nat.le_refl _), Nat.mul_comm,
        Nat.mul_add_mod, Nat.mod_eq_of_lt hlt, ih]

end OipComms.BigEndian
