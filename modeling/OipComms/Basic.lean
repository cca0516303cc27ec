import Mathlib.Data.Int.Basic

/-!
# Machine values

An `int` is an `Int` kept in range by `int32`, an `int8_t` by `int8`; the C++ leaves a signed
overflow undefined, and the model gives it the two's complement value every target compiler
produces. A string of the source, C, `std::string` or Godot's, is the list of its UTF-8 bytes,
written as characters: equality and order are those of the source.
-/

namespace OipComms

/-- A C string: its bytes, each written as a character. -/
abbrev CStr := List Char

instance : LawfulBEq CStr := inferInstance

/-- An `int` result: the value modulo `2^32`, in two's complement. -/
def int32 (x : Int) : Int := (x + 2147483648) % 4294967296 - 2147483648

/-- A conversion to `int8_t`. -/
def int8 (x : Int) : Int := (x + 128) % 256 - 128

theorem int32_eq_self {x : Int} (hlo : -2147483648 ≤ x) (hhi : x < 2147483648) : int32 x = x := by
  unfold int32
  omega

/-- A conversion to `uint8_t`. -/
def u8 (x : Int) : UInt8 := UInt8.ofNat (x % 256).toNat

/-- The decimal number a list of digits denotes. -/
def decimal (digits : CStr) : Int := digits.foldl (fun acc c => acc * 10 + (c.toNat - 48 : Nat)) 0

/-- A decimal number: digits, at least one, and nothing else. -/
def Digits (text : CStr) : Prop := text ≠ [] ∧ ∀ c ∈ text, c.isDigit = true

theorem decimal_nonneg (digits : CStr) : 0 ≤ decimal digits := by
  have hfold : ∀ (l : CStr) (acc : Int), 0 ≤ acc →
      0 ≤ l.foldl (fun (acc : Int) c => acc * 10 + (c.toNat - 48 : Nat)) acc := by
    intro l
    induction l with
    | nil => exact fun acc h => h
    | cons c l ih =>
      intro acc h
      exact ih _ (by simp only; omega)
  exact hfold digits 0 (Int.le_refl 0)

end OipComms
