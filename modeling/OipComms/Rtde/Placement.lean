import OipComms.Rtde.Layout

/-!
# A tag's place in a payload

A session resolves every tag against the offset table of its recipe. `Placed` is what it leaves in
the entry; with it the encoder and the reader of `oip_comms.cpp` are read in the terms of the
layout: a read returns the cast of what the layout has under the tag's name, a write stores the cast
of the value there, and every tag that does not overlap keeps what it had.
-/

namespace OipComms.Rtde

open BigEndian Slice

/-- An entry that a session has resolved against a table, with its variable's offset and type. -/
structure Placed (table : List (CStr × Nat × FieldType)) (e : RtdeTagEntry) (off : Nat)
    (ft : FieldType) : Prop where
  lookup : table.lookup e.baseName = some (off, ft)
  baseType : e.baseType = ft
  index_nonneg : 0 ≤ e.elementIndex
  bitIndexed : e.isBitIndexed = (e.hasBrackets && unsignedIntScalar ft)
  bit : e.isBitIndexed = true →
    e.elementIndex < 8 * fieldScalarSize ft ∧ e.byteOffset = off
  scalar : e.isBitIndexed = false →
    e.elementIndex < fieldArity ft ∧ e.scalarType = fieldElementType ft ∧
    e.byteOffset = off + e.elementIndex.toNat * fieldScalarSize ft

/-- What resolving leaves of an entry's own name. -/
structure SameName (e e' : RtdeTagEntry) : Prop where
  baseName : e'.baseName = e.baseName
  elementIndex : e'.elementIndex = e.elementIndex
  hasBrackets : e'.hasBrackets = e.hasBrackets
  isInput : e'.isInput = e.isInput

/-- A resolved entry is placed. -/
theorem resolve_placed {table : List (CStr × Nat × FieldType)} {e e' : RtdeTagEntry} {off : Nat}
    {ft : FieldType} (hlookup : table.lookup e.baseName = some (off, ft))
    (hfresh : e.isBitIndexed = false) (h : e.resolve off ft = (true, e')) :
    Placed table e' off ft ∧ SameName e e' := by
  unfold RtdeTagEntry.resolve at h
  simp only at h
  by_cases hbits : (e.hasBrackets && unsignedIntScalar ft) = true
  · simp only [hbits, if_true] at h
    by_cases hrange : e.elementIndex < 0 ∨ (fieldScalarSize ft * 8 : Int) ≤ e.elementIndex
    · rw [if_pos hrange] at h
      cases h
    · rw [if_neg hrange] at h
      obtain ⟨-, rfl⟩ := Prod.mk.inj h
      refine ⟨⟨hlookup, rfl, by simp only; omega, hbits.symm, fun _ => ⟨?_, rfl⟩,
        (fun hno => nomatch hno)⟩, ⟨rfl, rfl, rfl, rfl⟩⟩
      simp only
      omega
  · simp only [hbits] at h
    by_cases hrange : e.elementIndex < 0 ∨ fieldArity ft ≤ e.elementIndex
    · rw [if_pos hrange] at h
      cases h
    · rw [if_neg hrange] at h
      obtain ⟨-, rfl⟩ := Prod.mk.inj h
      rw [Bool.not_eq_true] at hbits
      refine ⟨⟨hlookup, rfl, by simp only; omega, by rw [hbits]; exact hfresh,
        fun hyes => ?_, fun _ => ⟨by simp only; omega, rfl, rfl⟩⟩, ⟨rfl, rfl, rfl, rfl⟩⟩
      rw [hfresh] at hyes
      cases hyes

/-- The bytes a tag reads and writes. -/
def RtdeTagEntry.accessSize (e : RtdeTagEntry) : Nat :=
  if e.isBitIndexed then fieldScalarSize e.baseType else fieldScalarSize e.scalarType

/-- What a tag denotes in a payload. -/
def RtdeTagEntry.scalar (e : RtdeTagEntry) (payload : List UInt8) : Scalar :=
  if e.isBitIndexed then
    .bool ((ofBE (slice payload e.byteOffset (fieldScalarSize e.baseType))).testBit
      e.elementIndex.toNat)
  else decodeScalar e.scalarType (slice payload e.byteOffset (fieldScalarSize e.scalarType))

/-- Two tags overlap when they name the same element of a variable, or an integer and one of its
bits. -/
def Overlaps (e e' : RtdeTagEntry) : Prop :=
  e.baseName = e'.baseName ∧
    (e.elementIndex = e'.elementIndex ∨ e.isBitIndexed ≠ e'.isBitIndexed)

variable {table : List (CStr × Nat × FieldType)} {e e' : RtdeTagEntry} {off off' : Nat}
  {ft ft' : FieldType} {V : Type} [GodotVariant V] {B : Type} [ReadAs B]

/-- The bytes of a tag lie in its variable. -/
theorem Placed.access (h : Placed table e off ft) :
    off ≤ e.byteOffset ∧ e.byteOffset + e.accessSize ≤ off + fieldSize ft := by
  cases hbit : e.isBitIndexed with
  | true =>
    obtain ⟨_, hoffset⟩ := h.bit hbit
    have hunsigned : unsignedIntScalar ft = true := by
      have hboth := h.bitIndexed
      rw [hbit] at hboth
      exact (Bool.and_eq_true_iff.mp hboth.symm).2
    rw [RtdeTagEntry.accessSize, hbit, if_pos rfl, h.baseType, hoffset,
      (fieldSize_of_unsigned hunsigned).1]
    omega
  | false =>
    obtain ⟨hindex, hscalar, hoffset⟩ := h.scalar hbit
    have hsize := fieldSize_eq ft
    have hnonneg := h.index_nonneg
    rw [RtdeTagEntry.accessSize, hbit, if_neg Bool.false_ne_true, hscalar,
      fieldScalarSize_elementType, hoffset]
    have hfits : (e.elementIndex + 1) * fieldScalarSize ft ≤ fieldSize ft := by
      rw [hsize]
      exact Int.mul_le_mul_of_nonneg_right (by omega) (by omega)
    have hcast : (e.elementIndex.toNat : Int) = e.elementIndex := Int.toNat_of_nonneg hnonneg
    have hmul : ((e.elementIndex.toNat * fieldScalarSize ft : Nat) : Int) =
        e.elementIndex * fieldScalarSize ft := by
      rw [Int.natCast_mul, hcast]
    rw [Int.add_mul, Int.one_mul, ← hmul] at hfits
    omega

/-- What a tag denotes is what the layout has under its name. -/
theorem Placed.read_eq {names : List CStr} {types : List FieldType}
    (h : Placed (offsetTable 0 names types) e off ft) (payload : List UInt8) :
    Recipe.read (names.zip types) payload e.baseName e.elementIndex.toNat e.hasBrackets =
      some (e.scalar payload) := by
  obtain ⟨_, _, _, hfield⟩ := lookup_offsetTable h.lookup
  have haccess := h.access
  rw [Recipe.read, hfield payload, Option.map_some, Nat.sub_zero]
  congr 1
  show readField ft (slice payload off (fieldSize ft)) _ _ = _
  cases hbit : e.isBitIndexed with
  | true =>
    have hboth := h.bitIndexed
    rw [hbit] at hboth
    have hunsigned := (Bool.and_eq_true_iff.mp hboth.symm).2
    rw [readField, ← hboth, if_pos rfl, RtdeTagEntry.scalar, hbit, if_pos rfl, h.baseType,
      (h.bit hbit).2, (fieldSize_of_unsigned hunsigned).1]
  | false =>
    have hboth := h.bitIndexed
    rw [hbit] at hboth
    obtain ⟨_, hscalar, hoffset⟩ := h.scalar hbit
    rw [RtdeTagEntry.accessSize, hbit, if_neg Bool.false_ne_true, hscalar,
      fieldScalarSize_elementType, hoffset] at haccess
    rw [readField, ← hboth, if_neg Bool.false_ne_true, RtdeTagEntry.scalar, hbit,
      if_neg Bool.false_ne_true, hscalar, fieldScalarSize_elementType, element, hoffset,
      slice_slice _ (by omega)]

/-- A read returns the cast of what the tag denotes. -/
theorem Placed.read_cast (h : Placed table e off ft) {payload : List UInt8}
    (hlen : off + fieldSize ft ≤ payload.length) :
    (e.read payload : B) = (e.scalar payload).cast := by
  have haccess := h.access
  rw [RtdeTagEntry.accessSize] at haccess
  cases hbit : e.isBitIndexed with
  | true =>
    have hboth := h.bitIndexed
    rw [hbit] at hboth
    have hunsigned := (Bool.and_eq_true_iff.mp hboth.symm).2
    have hindex := (h.bit hbit).1
    have hnonneg := h.index_nonneg
    rw [hbit, if_pos rfl, h.baseType] at haccess
    rw [RtdeTagEntry.read, hbit, if_pos rfl, h.baseType, if_neg (by omega), RtdeTagEntry.scalar,
      hbit, if_pos rfl, h.baseType, Scalar.cast,
      readBit_eq hunsigned (by rw [length_slice]; omega) (by omega)]
  | false =>
    rw [hbit, if_neg Bool.false_ne_true] at haccess
    rw [RtdeTagEntry.read, hbit, if_neg Bool.false_ne_true, if_neg (by omega),
      RtdeTagEntry.scalar, hbit, if_neg Bool.false_ne_true]
    exact readScalar_eq (by rw [length_slice]; omega)

/-- What a write puts into the payload: bytes of the tag's own size at its own place, which denote
the value cast to the field, or the integer with its one bit changed. -/
theorem Placed.encode_eq (h : Placed table e off ft) (hft : ft.Concrete) {payload : List UInt8}
    (hlen : off + fieldSize ft ≤ payload.length) (value : V) :
    ∃ bytes, e.encode payload value = some (overwrite payload e.byteOffset bytes) ∧
      bytes.length = e.accessSize ∧
      (e.isBitIndexed = false → decodeScalar e.scalarType bytes = storeField ft e.hasBrackets value) ∧
      (e.isBitIndexed = true →
        storeField ft e.hasBrackets value = .bool (GodotVariant.toBool value) ∧
        ∀ j < 8 * e.accessSize, (ofBE bytes).testBit j =
          if j = e.elementIndex.toNat then GodotVariant.toBool value
          else (ofBE (slice payload e.byteOffset e.accessSize)).testBit j) := by
  have haccess := h.access
  have hboth := h.bitIndexed
  unfold RtdeTagEntry.accessSize at *
  cases hbit : e.isBitIndexed with
  | true =>
    rw [hbit] at hboth haccess
    rw [if_pos rfl, h.baseType] at haccess
    have hunsigned := (Bool.and_eq_true_iff.mp hboth.symm).2
    have hindex := (h.bit hbit).1
    have hnonneg := h.index_nonneg
    have hslice : (slice payload e.byteOffset (fieldScalarSize ft)).length = fieldScalarSize ft := by
      rw [length_slice]
      omega
    obtain ⟨hsize, hbits⟩ := bitBytes_spec hunsigned hslice
      (show e.elementIndex.toNat < 8 * fieldScalarSize ft by omega) (GodotVariant.toBool value)
    refine ⟨bitBytes ft (slice payload e.byteOffset (fieldScalarSize ft)) e.elementIndex.toNat
      (GodotVariant.toBool value), ?_, ?_, (fun hno => nomatch hno), fun _ => ⟨?_, ?_⟩⟩
    · simp only [RtdeTagEntry.encode, hbit, if_true, h.baseType]
      rw [if_neg (by omega)]
    · rw [if_pos rfl, h.baseType]
      exact hsize
    · rw [storeField, ← hboth, if_pos rfl]
    · rw [if_pos rfl, h.baseType]
      exact hbits
  | false =>
    rw [hbit] at hboth haccess
    rw [if_neg Bool.false_ne_true] at haccess
    obtain ⟨_, hscalar, _⟩ := h.scalar hbit
    obtain ⟨bytes, hbytes⟩ := Option.isSome_iff_exists.mp (scalarBytes_isSome hft value)
    obtain ⟨hsize, hdecode⟩ := scalarBytes_some hbytes
    refine ⟨bytes, ?_, ?_, fun _ => ?_, fun hno => nomatch hno⟩
    · rw [RtdeTagEntry.encode, hbit, if_neg Bool.false_ne_true, if_neg (by omega), hscalar, hbytes]
      rfl
    · rw [if_neg Bool.false_ne_true, hscalar]
      exact hsize
    · rw [storeField, ← hboth, if_neg Bool.false_ne_true, hscalar]
      exact hdecode

/-- A written tag denotes the value written. -/
theorem Placed.scalar_encode (h : Placed table e off ft) (hft : ft.Concrete)
    {payload payload' : List UInt8} (hlen : off + fieldSize ft ≤ payload.length) {value : V}
    (hencode : e.encode payload value = some payload') :
    payload'.length = payload.length ∧ e.scalar payload' = storeField ft e.hasBrackets value := by
  obtain ⟨bytes, heq, hsize, hscalar, hbits⟩ := h.encode_eq hft hlen value
  have haccess := h.access
  rw [heq] at hencode
  obtain rfl := Option.some.inj hencode
  refine ⟨length_overwrite (by omega), ?_⟩
  have hself : slice (overwrite payload e.byteOffset bytes) e.byteOffset e.accessSize = bytes := by
    rw [← hsize]
    exact slice_overwrite_self (by omega)
  unfold RtdeTagEntry.accessSize at hself hbits
  cases hbit : e.isBitIndexed with
  | true =>
    obtain ⟨hstore, hbits⟩ := hbits hbit
    have hindex := (h.bit hbit).1
    have hnonneg := h.index_nonneg
    rw [hbit, if_pos rfl] at hself hbits
    rw [RtdeTagEntry.scalar, hbit, if_pos rfl, hself, hstore, hbits _ (by rw [h.baseType]; omega),
      if_pos rfl]
  | false =>
    rw [hbit, if_neg Bool.false_ne_true] at hself
    rw [RtdeTagEntry.scalar, hbit, if_neg Bool.false_ne_true, hself]
    exact hscalar hbit

/-- A tag that does not overlap keeps what it denotes. -/
theorem Placed.scalar_frame {names : List CStr} {types : List FieldType}
    (h : Placed (offsetTable 0 names types) e off ft)
    (h' : Placed (offsetTable 0 names types) e' off' ft') (hapart : ¬ Overlaps e e')
    (hft : ft.Concrete) {payload payload' : List UInt8}
    (hlen : off + fieldSize ft ≤ payload.length) {value : V}
    (hencode : e.encode payload value = some payload') :
    e'.scalar payload' = e'.scalar payload := by
  obtain ⟨bytes, heq, hsize, _, hbits⟩ := h.encode_eq hft hlen value
  have haccess := h.access
  have haccess' := h'.access
  rw [heq] at hencode
  obtain rfl := Option.some.inj hencode
  -- apart as byte ranges, the slice that is read is the same
  have hframe : (e'.byteOffset + e'.accessSize ≤ e.byteOffset ∨
      e.byteOffset + e.accessSize ≤ e'.byteOffset) →
      e'.scalar (overwrite payload e.byteOffset bytes) = e'.scalar payload := by
    intro hdisj
    rw [← hsize] at hdisj
    have hslice := slice_overwrite_disjoint (l := payload) (by omega) hdisj
    unfold RtdeTagEntry.accessSize at hslice
    unfold RtdeTagEntry.scalar
    cases hbit : e'.isBitIndexed with
    | true =>
      rw [hbit, if_pos rfl] at hslice
      rw [if_pos rfl, if_pos rfl, hslice]
    | false =>
      rw [hbit, if_neg Bool.false_ne_true] at hslice
      rw [if_neg Bool.false_ne_true, if_neg Bool.false_ne_true, hslice]
  by_cases hbase : e.baseName = e'.baseName
  · have hvar := h'.lookup
    rw [← hbase, h.lookup, Option.some.injEq, Prod.mk.injEq] at hvar
    obtain ⟨rfl, rfl⟩ := hvar
    have hsame : e.isBitIndexed = e'.isBitIndexed := by
      by_contra hne
      exact hapart ⟨hbase, .inr hne⟩
    have hindex : e.elementIndex ≠ e'.elementIndex := fun heq => hapart ⟨hbase, .inl heq⟩
    have hnonneg := h.index_nonneg
    have hnonneg' := h'.index_nonneg
    cases hbit : e.isBitIndexed with
    | true =>
      have hbit' : e'.isBitIndexed = true := hsame ▸ hbit
      obtain ⟨_, hbits⟩ := hbits hbit
      obtain ⟨hrange', hoffset'⟩ := h'.bit hbit'
      have hoffset := (h.bit hbit).2
      have haccessSize : e.accessSize = fieldScalarSize ft := by
        rw [RtdeTagEntry.accessSize, hbit, if_pos rfl, h.baseType]
      have hself : slice (overwrite payload e.byteOffset bytes) e.byteOffset bytes.length = bytes :=
        slice_overwrite_self (by omega)
      rw [hsize, haccessSize] at hself
      rw [haccessSize] at hbits
      rw [RtdeTagEntry.scalar, RtdeTagEntry.scalar, hbit', if_pos rfl, if_pos rfl, h'.baseType,
        show e'.byteOffset = e.byteOffset by rw [hoffset', hoffset], hself,
        hbits _ (by omega), if_neg (by omega)]
    | false =>
      have hbit' : e'.isBitIndexed = false := hsame ▸ hbit
      obtain ⟨_, hscalar, hoffset⟩ := h.scalar hbit
      obtain ⟨_, hscalar', hoffset'⟩ := h'.scalar hbit'
      apply hframe
      rw [RtdeTagEntry.accessSize, RtdeTagEntry.accessSize, hbit, hbit',
        if_neg Bool.false_ne_true, if_neg Bool.false_ne_true, hscalar, hscalar',
        fieldScalarSize_elementType, hoffset, hoffset']
      have hnat : e.elementIndex.toNat ≠ e'.elementIndex.toNat := by omega
      rcases Nat.lt_or_gt_of_ne hnat with hlt | hgt
      · right
        have := Nat.mul_le_mul_right (fieldScalarSize ft) (Nat.succ_le_of_lt hlt)
        rw [Nat.succ_mul] at this
        omega
      · left
        have := Nat.mul_le_mul_right (fieldScalarSize ft) (Nat.succ_le_of_lt hgt)
        rw [Nat.succ_mul] at this
        omega
  · apply hframe
    have hdisj := offsetTable_disjoint hbase h.lookup h'.lookup
    omega

end OipComms.Rtde
