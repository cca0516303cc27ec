import OipComms.Rtde.Group

/-!
# The layout of a payload

What a recipe means: its variables stand one behind the other in the order their names were sent
in, each with the bytes of its type, big-endian. A variable is read as a scalar, an element of a
vector, or, for an unsigned integer named with brackets, one bit.

This is the controller's side, with no table of offsets. The offset table of `init_rtde_session`
and the encoders and readers of `oip_comms.cpp` are connected to it at the end of the module and in
the next.
-/

namespace OipComms.Rtde

open BigEndian Slice

/-- A scalar of a package. -/
inductive Scalar
  | bool (b : Bool)
  | int (i : Int)
  | double (bits : UInt64)
  deriving DecidableEq, Repr

/-- A scalar cast to the type a read returns. -/
def Scalar.cast {B : Type} [ReadAs B] : Scalar → B
  | .bool b => ReadAs.ofInt (if b then 1 else 0)
  | .int i => ReadAs.ofInt i
  | .double bits => ReadAs.ofDouble bits

/-- The scalar a byte string denotes under a scalar type. -/
def decodeScalar (ft : FieldType) (bytes : List UInt8) : Scalar :=
  match ft with
  | .bool => .bool (ofBE bytes ≠ 0)
  | .uint8 | .uint32 | .uint64 => .int (ofBE bytes)
  | .int32 => .int (int32 (ofBE bytes))
  | .double => .double (UInt64.ofNat (ofBE bytes))
  | _ => .double 0

/-- The scalar a field of a scalar type holds after a write: the value cast to the type. -/
def storeScalar {V : Type} [GodotVariant V] (ft : FieldType) (value : V) : Scalar :=
  match ft with
  | .bool => .bool (GodotVariant.toBool value)
  | .uint8 => .int ((GodotVariant.toInt64 value).toNat % 256)
  | .uint32 => .int ((GodotVariant.toInt64 value).toNat % 4294967296)
  | .uint64 => .int (GodotVariant.toInt64 value).toNat
  | .int32 => .int (int32 (GodotVariant.toInt64 value).toNat)
  | .double => .double (GodotVariant.toDouble value)
  | _ => .double 0

/-- The scalar of a field nobody has written. -/
def zeroScalar (ft : FieldType) : Scalar :=
  match ft with
  | .bool => .bool false
  | .uint8 | .uint32 | .uint64 | .int32 => .int 0
  | _ => .double 0

/-- The part of a variable's bytes that an index into it names. -/
def element (ft : FieldType) (bytes : List UInt8) (idx : Nat) : List UInt8 :=
  slice bytes (idx * fieldScalarSize ft) (fieldScalarSize ft)

/-- What a name with an index means in a variable's bytes. -/
def readField (ft : FieldType) (bytes : List UInt8) (idx : Nat) (brackets : Bool) : Scalar :=
  if brackets && unsignedIntScalar ft then .bool ((ofBE bytes).testBit idx)
  else decodeScalar (fieldElementType ft) (element ft bytes idx)

/-- A value written under a name with or without brackets. -/
def storeField {V : Type} [GodotVariant V] (ft : FieldType) (brackets : Bool) (value : V) : Scalar :=
  if brackets && unsignedIntScalar ft then .bool (GodotVariant.toBool value)
  else storeScalar (fieldElementType ft) value

def zeroField (ft : FieldType) (brackets : Bool) : Scalar :=
  if brackets && unsignedIntScalar ft then .bool false else zeroScalar (fieldElementType ft)

/-- The variables of a recipe, in the order their names were sent in. -/
abbrev Recipe := List (CStr × FieldType)

/-- The bytes of a recipe's payload. -/
def Recipe.size (r : Recipe) : Nat := (r.map fun p => fieldSize p.2).sum

/-- The type and the bytes of a variable. -/
def Recipe.field : Recipe → List UInt8 → CStr → Option (FieldType × List UInt8)
  | [], _, _ => none
  | (name, ft) :: r, payload, base =>
    if base = name then some (ft, payload.take (fieldSize ft))
    else Recipe.field r (payload.drop (fieldSize ft)) base

/-- What a name with an index means in a payload. -/
def Recipe.read (r : Recipe) (payload : List UInt8) (base : CStr) (idx : Nat) (brackets : Bool) :
    Option Scalar :=
  (r.field payload base).map fun p => readField p.1 p.2 idx brackets

/-! ## Scalars -/

variable {V : Type} [GodotVariant V] {B : Type} [ReadAs B]

/-- One byte is its number. -/
private theorem getD_of_length_one {p : List UInt8} (h : p.length = 1) :
    (p.getD 0 0).toNat = ofBE p := by
  match p, h with
  | [b], _ => simp only [List.getD_cons_zero, ofBE_cons, List.length_nil, Nat.pow_zero, Nat.mul_one,
      ofBE_nil, Nat.add_zero]

/-- The reader casts what the bytes denote. -/
theorem readScalar_eq {ft : FieldType} {p : List UInt8} (h : p.length = fieldScalarSize ft) :
    (readScalar ft p : B) = (decodeScalar ft p).cast := by
  cases ft with
  | bool =>
    have hone := getD_of_length_one h
    have hzero : p.getD 0 0 ≠ 0 ↔ ofBE p ≠ 0 := by
      rw [← hone, ne_eq, ne_eq, ← UInt8.toNat_inj]
      rfl
    by_cases hp : ofBE p ≠ 0
    · simp only [readScalar, decodeScalar, Scalar.cast, if_pos (hzero.mpr hp), decide_eq_true hp,
        if_true]
    · simp only [readScalar, decodeScalar, Scalar.cast, if_neg (fun h => hp (hzero.mp h)),
        decide_eq_false hp, Bool.false_eq_true, if_false]
  | uint8 =>
    rw [readScalar, getD_of_length_one h]
    rfl
  | uint32 =>
    rw [readScalar, be32ToHost_eq h]
    rfl
  | int32 =>
    rw [readScalar, be32ToHost_eq h]
    rfl
  | uint64 =>
    rw [readScalar, be64ToHost_eq h]
    rfl
  | double =>
    rw [readScalar, decodeScalar, Scalar.cast, ← be64ToHost_eq h, UInt64.ofNat_toNat]
  | _ => rfl

/-- A number that fits is not cut. -/
private theorem mod_pow_256 (n : Nat) (w : Nat) (bound : Nat) (h : n < bound)
    (hw : bound ≤ 256 ^ w) : n % 256 ^ w = n :=
  Nat.mod_eq_of_lt (Nat.lt_of_lt_of_le h hw)

/-- The encoder fills the field, and the bytes denote the value cast to the field's type. -/
theorem scalarBytes_some {ft : FieldType} {value : V} {bytes : List UInt8}
    (h : scalarBytes ft value = some bytes) :
    bytes.length = fieldScalarSize ft ∧ decodeScalar ft bytes = storeScalar ft value := by
  cases ft with
  | bool =>
    obtain rfl := Option.some.inj h
    refine ⟨rfl, ?_⟩
    cases hb : GodotVariant.toBool value <;> simp only [decodeScalar, storeScalar, hb] <;> rfl
  | uint8 =>
    obtain rfl := Option.some.inj h
    refine ⟨rfl, ?_⟩
    simp only [decodeScalar, storeScalar, ofBE_cons, List.length_nil, Nat.pow_zero, Nat.mul_one,
      ofBE_nil, Nat.add_zero, UInt64.toNat_toUInt8]
    rfl
  | uint32 =>
    obtain rfl := Option.some.inj h
    refine ⟨rfl, ?_⟩
    have hlt := (GodotVariant.toInt64 value).toUInt32.toNat_lt
    rw [decodeScalar, storeScalar, hostToBe32_eq, ofBE_toBE, mod_pow_256 _ 4 _ hlt (by decide),
      UInt64.toNat_toUInt32]
    rfl
  | int32 =>
    obtain rfl := Option.some.inj h
    refine ⟨rfl, ?_⟩
    have hlt := (GodotVariant.toInt64 value).toUInt32.toNat_lt
    rw [decodeScalar, storeScalar, hostToBe32_eq, ofBE_toBE, mod_pow_256 _ 4 _ hlt (by decide),
      UInt64.toNat_toUInt32]
    simp only [int32, Scalar.int.injEq]
    omega
  | uint64 =>
    obtain rfl := Option.some.inj h
    refine ⟨rfl, ?_⟩
    have hlt := (GodotVariant.toInt64 value).toNat_lt
    rw [decodeScalar, storeScalar, hostToBe64_eq, ofBE_toBE, mod_pow_256 _ 8 _ hlt (by decide)]
  | double =>
    obtain rfl := Option.some.inj h
    refine ⟨rfl, ?_⟩
    have hlt := (GodotVariant.toDouble value).toNat_lt
    rw [decodeScalar, storeScalar, hostToBe64_eq, ofBE_toBE, mod_pow_256 _ 8 _ hlt (by decide),
      UInt64.ofNat_toNat]
  | _ => cases h

/-- Every element of a concrete type can be written. -/
theorem scalarBytes_isSome {ft : FieldType} (h : ft.Concrete) (value : V) :
    (scalarBytes (fieldElementType ft) value).isSome = true := by
  obtain ⟨h1, h2, h3⟩ := h
  cases ft <;> first | rfl | contradiction

/-- A field of zeros. -/
theorem decodeScalar_zeros (ft : FieldType) (n : Nat) :
    decodeScalar ft (List.replicate n 0) = zeroScalar ft := by
  cases ft <;> simp only [decodeScalar, zeroScalar, ofBE_replicate_zero] <;> rfl

/-! ## Bits -/

/-- The bits of a word after one is set. -/
theorem testBit_setBit32 (cur : UInt32) {bit : Nat} (hbit : bit < 32) (b : Bool) {j : Nat}
    (hj : j < 32) :
    (setBit32 cur bit b).toNat.testBit j = if j = bit then b else cur.toNat.testBit j := by
  have hshift : (bit.toUInt32.toBitVec % 32#32).toNat = bit := by
    simp [Nat.mod_eq_of_lt hbit]
  unfold setBit32
  rw [← UInt32.toNat_toBitVec, ← UInt32.toNat_toBitVec, BitVec.testBit_toNat, BitVec.testBit_toNat]
  by_cases heq : j = bit
  · subst heq
    cases b <;> simp [hshift, hj]
  · have hcases : j < bit ∨ ¬ j < bit ∧ j - bit ≠ 0 := by omega
    rcases hcases with hlt | ⟨hnlt, hsub⟩
    · cases b <;> simp [hshift, hj, heq, hlt]
    · cases b <;> simp [hshift, hj, heq, hnlt, hsub]

/-- The bits of a double word after one is set. -/
theorem testBit_setBit64 (cur : UInt64) {bit : Nat} (hbit : bit < 64) (b : Bool) {j : Nat}
    (hj : j < 64) :
    (setBit64 cur bit b).toNat.testBit j = if j = bit then b else cur.toNat.testBit j := by
  have hshift : (bit.toUInt64.toBitVec % 64#64).toNat = bit := by
    simp [Nat.mod_eq_of_lt hbit]
  unfold setBit64
  rw [← UInt64.toNat_toBitVec, ← UInt64.toNat_toBitVec, BitVec.testBit_toNat, BitVec.testBit_toNat]
  by_cases heq : j = bit
  · subst heq
    cases b <;> simp [hshift, hj]
  · have hcases : j < bit ∨ ¬ j < bit ∧ j - bit ≠ 0 := by omega
    rcases hcases with hlt | ⟨hnlt, hsub⟩
    · cases b <;> simp [hshift, hj, heq, hlt]
    · cases b <;> simp [hshift, hj, heq, hnlt, hsub]

/-- The bits of a byte after one is set. -/
theorem testBit_setBit8 (p : UInt8) {bit : Nat} (hbit : bit < 8) (b : Bool) {j : Nat}
    (hj : j < 8) :
    (setBit8 p bit b).toNat.testBit j = if j = bit then b else p.toNat.testBit j := by
  have hshift : (bit.toUInt32.toBitVec % 32#32).toNat = bit := by
    simp [Nat.mod_eq_of_lt (show bit < 32 by omega)]
  unfold setBit8
  rw [← UInt8.toNat_toBitVec, ← UInt8.toNat_toBitVec, BitVec.testBit_toNat, BitVec.testBit_toNat]
  by_cases heq : j = bit
  · subst heq
    cases b <;> simp [hshift, hj]
  · have hcases : j < bit ∨ ¬ j < bit ∧ j - bit ≠ 0 := by omega
    rcases hcases with hlt | ⟨hnlt, hsub⟩
    · cases b <;> simp [hshift, hj, heq, hlt]
    · cases b <;> simp [hshift, hj, heq, hnlt, hsub]

/-- The encoder of a bit keeps the field's size and changes that bit of the integer only. -/
theorem bitBytes_spec {ft : FieldType} (hft : unsignedIntScalar ft = true) {p : List UInt8}
    (hp : p.length = fieldScalarSize ft) {bit : Nat} (hbit : bit < 8 * fieldScalarSize ft)
    (b : Bool) :
    (bitBytes ft p bit b).length = fieldScalarSize ft ∧
    ∀ j < 8 * fieldScalarSize ft,
      (ofBE (bitBytes ft p bit b)).testBit j = if j = bit then b else (ofBE p).testBit j := by
  cases ft with
  | uint8 =>
    refine ⟨rfl, fun j hj => ?_⟩
    rw [← getD_of_length_one hp, ← testBit_setBit8 _ hbit b hj, bitBytes, ← getD_of_length_one rfl]
    rfl
  | uint32 =>
    refine ⟨rfl, fun j hj => ?_⟩
    rw [← be32ToHost_eq hp, ← testBit_setBit32 _ hbit b hj, bitBytes, hostToBe32_eq, ofBE_toBE,
      mod_pow_256 _ 4 _ (UInt32.toNat_lt _) (by decide)]
  | uint64 =>
    refine ⟨rfl, fun j hj => ?_⟩
    rw [← be64ToHost_eq hp, ← testBit_setBit64 _ hbit b hj, bitBytes, hostToBe64_eq, ofBE_toBE,
      mod_pow_256 _ 8 _ (UInt64.toNat_lt _) (by decide)]
  | _ => cases hft

/-- A bit that is masked out is one or zero. -/
private theorem toNat_bit (v : UInt64) {bit : Nat} (hbit : bit < 64) :
    ((v >>> bit.toUInt64) &&& 1).toNat = if v.toNat.testBit bit then 1 else 0 := by
  have hshift : bit.toUInt64.toNat % 64 = bit := by
    rw [show bit.toUInt64.toNat = bit % 2 ^ 64 from rfl]
    omega
  rw [UInt64.toNat_and, UInt64.toNat_shiftRight, hshift, show UInt64.toNat 1 = 1 from rfl,
    Nat.and_one_is_mod, Nat.shiftRight_eq_div_pow, ← Nat.toNat_testBit]
  cases v.toNat.testBit bit <;> rfl

/-- The reader of a bit. -/
theorem readBit_eq {ft : FieldType} (hft : unsignedIntScalar ft = true) {p : List UInt8}
    (hp : p.length = fieldScalarSize ft) {bit : Nat} (hbit : bit < 8 * fieldScalarSize ft) :
    ((readBit ft p bit).toNat : Int) = if (ofBE p).testBit bit then 1 else 0 := by
  cases ft with
  | uint8 =>
    have hsmall : bit < 64 := Nat.lt_of_lt_of_le hbit (by decide)
    rw [readBit, toNat_bit _ hsmall, UInt8.toNat_toUInt64, getD_of_length_one hp]
    split <;> rfl
  | uint32 =>
    have hsmall : bit < 64 := Nat.lt_of_lt_of_le hbit (by decide)
    rw [readBit, toNat_bit _ hsmall, UInt32.toNat_toUInt64, be32ToHost_eq hp]
    split <;> rfl
  | uint64 =>
    have hsmall : bit < 64 := Nat.lt_of_lt_of_le hbit (by decide)
    rw [readBit, toNat_bit _ hsmall, be64ToHost_eq hp]
    split <;> rfl
  | _ => cases hft

/-! ## The offset table -/

/-- The table places a variable where the layout has it. -/
theorem lookup_offsetTable {names : List CStr} {types : List FieldType} {start off : Nat}
    {base : CStr} {ft : FieldType}
    (h : (offsetTable start names types).lookup base = some (off, ft)) :
    start ≤ off ∧ off + fieldSize ft ≤ start + Recipe.size (names.zip types) ∧
      (base, ft) ∈ names.zip types ∧
      ∀ payload, Recipe.field (names.zip types) payload base =
        some (ft, slice payload (off - start) (fieldSize ft)) := by
  induction names generalizing types start with
  | nil => cases h
  | cons name names ih =>
    cases types with
    | nil => cases h
    | cons t types =>
      simp only [offsetTable, List.lookup_cons] at h
      by_cases hname : base = name
      · subst hname
        simp only [BEq.rfl, Option.some.injEq, Prod.mk.injEq] at h
        obtain ⟨rfl, rfl⟩ := h
        refine ⟨Nat.le_refl _, ?_, List.mem_cons_self, fun payload => ?_⟩
        · simp only [Recipe.size, List.zip_cons_cons, List.map_cons, List.sum_cons]
          omega
        · simp only [List.zip_cons_cons, Recipe.field, if_true, Nat.sub_self, slice, List.drop_zero]
      · rw [beq_false_of_ne hname] at h
        obtain ⟨hle, hend, hmem, hfield⟩ := ih h
        refine ⟨by omega, ?_, List.mem_cons_of_mem _ hmem, fun payload => ?_⟩
        · simp only [Recipe.size, List.zip_cons_cons, List.map_cons, List.sum_cons] at hend ⊢
          omega
        · simp only [List.zip_cons_cons, Recipe.field, if_neg hname, hfield]
          rw [slice, slice, List.drop_drop, show fieldSize t + (off - (start + fieldSize t)) =
            off - start by omega]

/-- Two variables do not share a byte. -/
theorem offsetTable_disjoint {names : List CStr} {types : List FieldType} {start off off' : Nat}
    {base base' : CStr} {ft ft' : FieldType} (hne : base ≠ base')
    (h : (offsetTable start names types).lookup base = some (off, ft))
    (h' : (offsetTable start names types).lookup base' = some (off', ft')) :
    off + fieldSize ft ≤ off' ∨ off' + fieldSize ft' ≤ off := by
  induction names generalizing types start with
  | nil => cases h
  | cons name names ih =>
    cases types with
    | nil => cases h
    | cons t types =>
      simp only [offsetTable, List.lookup_cons] at h h'
      by_cases hname : base = name
      · subst hname
        rw [beq_false_of_ne hne.symm] at h'
        simp only [BEq.rfl, Option.some.injEq, Prod.mk.injEq] at h
        obtain ⟨rfl, rfl⟩ := h
        exact .inl (lookup_offsetTable h').1
      · rw [beq_false_of_ne hname] at h
        by_cases hname' : base' = name
        · subst hname'
          simp only [BEq.rfl, Option.some.injEq, Prod.mk.injEq] at h'
          obtain ⟨rfl, rfl⟩ := h'
          exact .inr (lookup_offsetTable h).1
        · rw [beq_false_of_ne hname'] at h'
          exact ih h h'

/-- The payload a session allocates is the size of its recipe. -/
theorem payloadSize_eq {names : List CStr} {types : List FieldType}
    (h : types.length = names.length) : payloadSize types = Recipe.size (names.zip types) := by
  have hfold : ∀ (types : List FieldType) (off : Nat),
      types.foldl (fun off ft => off + fieldSize ft) off = off + (types.map fieldSize).sum := by
    intro types
    induction types with
    | nil => exact fun off => rfl
    | cons t types ih =>
      intro off
      rw [List.foldl_cons, ih, List.map_cons, List.sum_cons, Nat.add_assoc]
  have hzip : (names.zip types).map (fun p => fieldSize p.2) = types.map fieldSize := by
    rw [show (fun p : CStr × FieldType => fieldSize p.2) = fieldSize ∘ Prod.snd from rfl,
      ← List.map_map, List.map_snd_zip (by omega)]
  rw [payloadSize, hfold, Nat.zero_add, Recipe.size, hzip]

end OipComms.Rtde
