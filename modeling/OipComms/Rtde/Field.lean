import Mathlib.Data.Nat.Bitwise
import OipComms.Basic
import OipComms.Lib.BigEndian

/-!
# The field types of an RTDE recipe

The controller names the type of every variable of a recipe; `rtde_client.cpp` turns each name into
a `FieldType` and has four small functions on it. The type fixes how many bytes the variable takes
in a data package and how an index into it is read. The big-endian helpers of `oip_comms.cpp` move
the scalars in and out of a package.
-/

namespace OipComms.Rtde

open BigEndian

/-- `FieldType`. -/
inductive FieldType
  | unknown
  | bool
  | uint8
  | uint32
  | uint64
  | int32
  | double
  | vector3d
  | vector6d
  | vector6int32
  | vector6uint32
  | notFound
  | inUse
  deriving DecidableEq, Repr

/-- `field_size`: the bytes of a variable in a package. -/
def fieldSize : FieldType → Nat
  | .bool | .uint8 => 1
  | .uint32 | .int32 => 4
  | .uint64 | .double => 8
  | .vector3d => 24
  | .vector6d => 48
  | .vector6int32 | .vector6uint32 => 24
  | .unknown | .notFound | .inUse => 0

/-- `field_arity`: the number of elements. -/
def fieldArity : FieldType → Int
  | .vector3d => 3
  | .vector6d | .vector6int32 | .vector6uint32 => 6
  | .unknown | .notFound => 0
  | _ => 1

/-- `field_scalar_size`: the bytes of one element. -/
def fieldScalarSize : FieldType → Nat
  | .bool | .uint8 => 1
  | .uint32 | .int32 | .vector6int32 | .vector6uint32 => 4
  | .uint64 | .double | .vector3d | .vector6d => 8
  | .unknown | .notFound | .inUse => 0

/-- `field_element_type`. -/
def fieldElementType : FieldType → FieldType
  | .vector3d | .vector6d => .double
  | .vector6int32 => .int32
  | .vector6uint32 => .uint32
  | ft => ft

/-- `parse_field_type`. -/
def parseFieldType (s : CStr) : FieldType :=
  if s = "BOOL".toList then .bool
  else if s = "UINT8".toList then .uint8
  else if s = "UINT32".toList then .uint32
  else if s = "UINT64".toList then .uint64
  else if s = "INT32".toList then .int32
  else if s = "DOUBLE".toList then .double
  else if s = "VECTOR3D".toList then .vector3d
  else if s = "VECTOR6D".toList then .vector6d
  else if s = "VECTOR6INT32".toList then .vector6int32
  else if s = "VECTOR6UINT32".toList then .vector6uint32
  else if s = "NOT_FOUND".toList then .notFound
  else if s = "IN_USE".toList then .inUse
  else .unknown

/-- A type a package can carry: none of the three answers that stand for a refusal. -/
def FieldType.Concrete (ft : FieldType) : Prop := ft ≠ .unknown ∧ ft ≠ .notFound ∧ ft ≠ .inUse

instance (ft : FieldType) : Decidable ft.Concrete := inferInstanceAs (Decidable (_ ∧ _ ∧ _))

/-- The integer types whose bits a bracketed index selects. -/
def unsignedIntScalar : FieldType → Bool
  | .uint8 | .uint32 | .uint64 => true
  | _ => false

/-- The elements of a type fill its field. -/
theorem fieldSize_eq (ft : FieldType) :
    (fieldSize ft : Int) = fieldArity ft * fieldScalarSize ft := by
  cases ft <;> rfl

/-- A vector has scalars as large as its elements. -/
theorem fieldScalarSize_elementType (ft : FieldType) :
    fieldScalarSize (fieldElementType ft) = fieldScalarSize ft := by
  cases ft <;> rfl

/-- A field of an unsigned integer is one scalar. -/
theorem fieldSize_of_unsigned {ft : FieldType} (h : unsignedIntScalar ft = true) :
    fieldSize ft = fieldScalarSize ft ∧ fieldElementType ft = ft ∧ fieldArity ft = 1 := by
  cases ft <;> first | exact ⟨rfl, rfl, rfl⟩ | cases h

/-! ## Byte order -/

/-- `host_to_be32`: the four bytes it stores. -/
def hostToBe32 (v : UInt32) : List UInt8 :=
  [(v >>> 24).toUInt8, (v >>> 16).toUInt8, (v >>> 8).toUInt8, v.toUInt8]

/-- `host_to_be64`, which stores two halves; `store_be64` of the client stores the same bytes. -/
def hostToBe64 (v : UInt64) : List UInt8 :=
  hostToBe32 (v >>> 32).toUInt32 ++ hostToBe32 v.toUInt32

/-- `be32_to_host`, on the four bytes it reads. -/
def be32ToHost (p : List UInt8) : UInt32 :=
  (p.getD 0 0).toUInt32 <<< 24 ||| (p.getD 1 0).toUInt32 <<< 16 ||| (p.getD 2 0).toUInt32 <<< 8 |||
    (p.getD 3 0).toUInt32

/-- `be64_to_host`, on the eight bytes it reads. -/
def be64ToHost (p : List UInt8) : UInt64 :=
  (be32ToHost p).toUInt64 <<< 32 ||| (be32ToHost (p.drop 4)).toUInt64

/-- The four bytes of a word, the highest first. -/
theorem hostToBe32_eq (v : UInt32) : hostToBe32 v = toBE 4 v.toNat := by
  simp only [hostToBe32, toBE, List.cons.injEq, and_true, ← UInt8.toNat_inj, UInt8.toNat_ofNat',
    UInt32.toNat_toUInt8, UInt32.toNat_shiftRight, Nat.shiftRight_eq_div_pow]
  refine ⟨?_, ?_, ?_, ?_⟩ <;> simp

/-- The eight bytes of a word, the highest first. -/
theorem hostToBe64_eq (v : UInt64) : hostToBe64 v = toBE 8 v.toNat := by
  have hhigh : (v >>> 32).toUInt32.toNat = v.toNat / 2 ^ 32 := by
    have hlt := v.toNat_lt
    rw [UInt64.toNat_toUInt32, UInt64.toNat_shiftRight, Nat.shiftRight_eq_div_pow]
    show v.toNat / 2 ^ 32 % 2 ^ 32 = v.toNat / 2 ^ 32
    omega
  have hlow : toBE 4 v.toUInt32.toNat = toBE 4 v.toNat := by
    rw [UInt64.toNat_toUInt32]
    exact toBE_mod 4 v.toNat 4 (Nat.le_refl 4)
  rw [hostToBe64, hostToBe32_eq, hostToBe32_eq, hhigh, hlow]
  simp only [toBE, List.cons_append, List.nil_append, Nat.div_div_eq_div_mul]
  rfl

/-- A byte behind what was shifted before. -/
private theorem shiftLeft_or (x y k : Nat) (hy : y < 256) :
    x <<< (k + 8) ||| y <<< k = (x * 256 + y) <<< k := by
  rw [Nat.add_comm k 8, Nat.shiftLeft_add, ← Nat.shiftLeft_or_distrib,
    ← Nat.shiftLeft_add_eq_or_of_lt (show y < 2 ^ 8 from hy), Nat.shiftLeft_eq x 8]

/-- Four bytes, the highest first, are their number. -/
theorem be32ToHost_eq {p : List UInt8} (h : p.length = 4) : (be32ToHost p).toNat = ofBE p := by
  match p, h with
  | [a, b, c, d], _ =>
    have ha := a.toNat_lt
    have hb := b.toNat_lt
    have hc := c.toNat_lt
    have hd := d.toNat_lt
    have hshift : ∀ (x : UInt8) (k : UInt32), k.toNat ≤ 24 →
        (x.toUInt32 <<< k).toNat = x.toNat <<< k.toNat := by
      intro x k hk
      have hx := x.toNat_lt
      have hpow : 2 ^ k.toNat ≤ 2 ^ 24 := Nat.pow_le_pow_right (by omega) hk
      have hmul : x.toNat * 2 ^ k.toNat < 2 ^ 8 * 2 ^ 24 :=
        Nat.mul_lt_mul_of_lt_of_le hx hpow (by omega)
      rw [UInt32.toNat_shiftLeft, Nat.mod_eq_of_lt (show k.toNat < 32 by omega),
        UInt8.toNat_toUInt32, Nat.shiftLeft_eq, Nat.mod_eq_of_lt (by omega)]
    show (a.toUInt32 <<< 24 ||| b.toUInt32 <<< 16 ||| c.toUInt32 <<< 8 ||| d.toUInt32).toNat = _
    rw [UInt32.toNat_or, UInt32.toNat_or, UInt32.toNat_or, hshift a 24 (by decide),
      hshift b 16 (by decide), hshift c 8 (by decide), UInt8.toNat_toUInt32]
    have h1 := shiftLeft_or a.toNat b.toNat 16 hb
    have h2 := shiftLeft_or (a.toNat * 256 + b.toNat) c.toNat 8 hc
    have h3 := shiftLeft_or ((a.toNat * 256 + b.toNat) * 256 + c.toNat) d.toNat 0 hd
    rw [show UInt32.toNat 24 = 16 + 8 from rfl, show UInt32.toNat 16 = 16 from rfl,
      show UInt32.toNat 8 = 8 from rfl, h1, show 16 = 8 + 8 from rfl, h2]
    simpa only [Nat.zero_add, Nat.shiftLeft_zero, ofBE, List.foldl_cons, List.foldl_nil,
      Nat.zero_mul] using h3

/-- Eight bytes, the highest first, are their number. -/
theorem be64ToHost_eq {p : List UInt8} (h : p.length = 8) : (be64ToHost p).toNat = ofBE p := by
  have hhigh : (be32ToHost p).toNat = ofBE (p.take 4) := by
    rw [← be32ToHost_eq (by rw [List.length_take, h]; rfl)]
    match p, h with
    | _ :: _ :: _ :: _ :: _, _ => rfl
  have hlow := be32ToHost_eq (p := p.drop 4) (by rw [List.length_drop, h])
  have hsplit := ofBE_append (p.take 4) (p.drop 4)
  rw [List.take_append_drop, List.length_drop, h] at hsplit
  have hlt := (be32ToHost p).toNat_lt
  have hlt' := (be32ToHost (p.drop 4)).toNat_lt
  rw [be64ToHost, UInt64.toNat_or, UInt64.toNat_shiftLeft, UInt32.toNat_toUInt64,
    UInt32.toNat_toUInt64, show UInt64.toNat 32 % 64 = 32 from rfl,
    Nat.mod_eq_of_lt (by rw [Nat.shiftLeft_eq]; omega), ← Nat.shiftLeft_add_eq_or_of_lt hlt',
    hhigh, hlow, hsplit, Nat.shiftLeft_eq]
  rfl

end OipComms.Rtde
