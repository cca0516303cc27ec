import Mathlib.Data.Int.Basic
import OipComms.Basic

/-!
# S7 tags and memory blocks

The data of `S7Com.cpp`: one `S7MemoryBlock` per address space, one `S7Tag` per registered name,
and the two functions that give a tag its meaning, `DecodeTag` (what a name such as `MW5` or
`I0.3` addresses) and the block update inside `s7_register_tag`.
-/

namespace OipComms.S7

/-- What `std::stoi` throws. -/
inductive StoiError
  | invalidArgument
  | outOfRange
  deriving DecidableEq, Repr

/-- `isspace` in the "C" locale. -/
def isSpace (c : Char) : Bool := c = ' ' || ('\t' ≤ c && c ≤ '\r')

/-- The value of the digits `std::stoi` found after a sign, if an `int` can hold it. -/
def signedDecimal (negative : Bool) (digits : CStr) : Except StoiError Int :=
  let value := if negative then -decimal digits else decimal digits
  if digits = [] then .error .invalidArgument
  else if value < -2147483648 ∨ 2147483647 < value then .error .outOfRange
  else .ok value

/-- A decimal that is read fits in 32 bits. -/
theorem signedDecimal_range {negative : Bool} {digits : CStr} {v : Int}
    (h : signedDecimal negative digits = .ok v) : -2147483648 ≤ v ∧ v ≤ 2147483647 := by
  simp only [signedDecimal] at h
  generalize (if negative = true then -decimal digits else decimal digits) = value at h
  by_cases hnil : digits = []
  · rw [if_pos hnil] at h
    cases h
  · rw [if_neg hnil] at h
    by_cases hrange : value < -2147483648 ∨ 2147483647 < value
    · rw [if_pos hrange] at h
      cases h
    · rw [if_neg hrange] at h
      cases h
      omega

/-- `std::stoi` with its default base: blanks are skipped, a sign is taken, and what follows the
digits is ignored. -/
def stoi (s : CStr) : Except StoiError Int :=
  let s := s.dropWhile isSpace
  if s.head? = some '-' then signedDecimal true (s.tail.takeWhile Char.isDigit)
  else if s.head? = some '+' then signedDecimal false (s.tail.takeWhile Char.isDigit)
  else signedDecimal false (s.takeWhile Char.isDigit)

/-- Every value `std::stoi` returns is an `int`. -/
theorem stoi_range {s : CStr} {v : Int} (h : stoi s = .ok v) :
    -2147483648 ≤ v ∧ v ≤ 2147483647 := by
  simp only [stoi] at h
  split at h
  · exact signedDecimal_range h
  · split at h
    · exact signedDecimal_range h
    · exact signedDecimal_range h

/-- The three address spaces a connection reads; a tag's `Mem` pointer is one of them. -/
inductive Area
  | I
  | Q
  | M
  deriving DecidableEq, Repr

/-- `S7MemoryBlock`: the polled range of one address space and its image. -/
structure S7MemoryBlock where
  start : Int := 65536
  quantity : Int := 0
  resized : Bool := false
  memImage : List UInt8 := []
  deriving DecidableEq, Repr

/-- `S7Tag`. `mem` is the area of the block the tag points to, `none` for `nullptr`. -/
structure S7Tag where
  identifier : Nat
  idx : Int := 0
  bitIdx : Int := -1
  byteQty : Nat := 0
  mem : Option Area := none
  pendingValue : UInt64 := 0
  writePending : Bool := false
  deriving DecidableEq, Repr

/-- `S7Tag::IdCounter` after one more construction. -/
def nextTagId (idCounter : Nat) : Nat := (idCounter + 1) &&& 0xFFFFFF

/-- The counter goes on by one. -/
theorem nextTagId_eq {c : Nat} (h : c + 1 < 16777216) : nextTagId c = c + 1 := by
  have hmask := Nat.and_two_pow_sub_one_eq_mod (c + 1) 24
  rw [nextTagId, show (0xFFFFFF : Nat) = 2 ^ 24 - 1 from rfl, hmask, Nat.mod_eq_of_lt h]

/-- The counter stays below 2^24. -/
theorem nextTagId_lt (c : Nat) : nextTagId c < 16777216 :=
  Nat.lt_of_le_of_lt Nat.and_le_right (by omega)

/-- `substr(pos, n)`. -/
def substr (s : CStr) (pos n : Nat) : CStr := (s.drop pos).take n

/-- The block a tag name's first letter selects. -/
def decodeArea (t0 : Char) : Option Area :=
  if t0 = 'I' ∨ t0 = 'E' then some .I
  else if t0 = 'Q' ∨ t0 = 'A' then some .Q
  else if t0 = 'M' then some .M
  else none

/-- The byte count a tag name's second letter selects, when it selects one. -/
def widthOf (t1 : Char) : Option Nat :=
  if t1 = 'B' then some 1
  else if t1 = 'W' then some 2
  else if t1 = 'D' then some 4
  else if t1 = 'L' then some 8
  else none

/-- `S7Plc::DecodeTag` on a tag constructed with identifier `id`. `mem` stays `none` for a name of
no known form, and a number `std::stoi` refuses is an exception. -/
def decodeTag (id : Nat) (tagName : CStr) : Except StoiError S7Tag :=
  match tagName with
  | c0 :: c1 :: rest =>
    match widthOf c1.toUpper with
    | some byteQty => do
      let idx ← stoi rest
      .ok { identifier := id, idx := idx, byteQty := byteQty, mem := decodeArea c0.toUpper }
    | none =>
      match tagName.idxOf? '.' with
      | some dot => do
        -- `dot - 1` of a leading dot wraps to `npos`: the rest of the name
        let idx ← stoi (substr tagName 1 (if dot = 0 then tagName.length else dot - 1))
        let bitIdx ← stoi (tagName.drop (dot + 1))
        .ok { identifier := id, idx := idx, bitIdx := int8 bitIdx, byteQty := 1,
              mem := decodeArea c0.toUpper }
      | none => .ok { identifier := id }
  | _ => .ok { identifier := id }

/-- What `DecodeTag` returns: a fresh tag under the given identifier, and when a block was found a
width it knows, with a bit only on a single byte. -/
structure Decoded (id : Nat) (tag : S7Tag) : Prop where
  identifier : tag.identifier = id
  pendingValue : tag.pendingValue = 0
  writePending : tag.writePending = false
  idx_range : -2147483648 ≤ tag.idx ∧ tag.idx ≤ 2147483647
  byteQty : tag.mem ≠ none →
    tag.byteQty = 1 ∨ tag.bitIdx = -1 ∧ (tag.byteQty = 2 ∨ tag.byteQty = 4 ∨ tag.byteQty = 8)

/-- A name of no known form leaves the tag as it was constructed. -/
theorem decoded_fresh (id : Nat) : Decoded id { identifier := id } :=
  ⟨rfl, rfl, rfl, ⟨by simp, by simp⟩, fun h => (h rfl).elim⟩

/-- A width is one, two, four or eight bytes. -/
theorem widthOf_cases {t1 : Char} {n : Nat} (h : widthOf t1 = some n) :
    n = 1 ∨ n = 2 ∨ n = 4 ∨ n = 8 := by
  unfold widthOf at h
  repeat' split at h
  all_goals simp_all

/-- A name that is decoded makes a tag of one of the forms. -/
theorem decodeTag_decoded {id : Nat} {tagName : CStr} {tag : S7Tag}
    (h : decodeTag id tagName = .ok tag) : Decoded id tag := by
  match tagName with
  | [] => cases h; exact decoded_fresh id
  | [_] => cases h; exact decoded_fresh id
  | c0 :: c1 :: rest =>
    simp only [decodeTag] at h
    cases hw : widthOf c1.toUpper with
    | some byteQty =>
      rw [hw] at h
      cases hidx : stoi rest with
      | error e => rw [hidx] at h; cases h
      | ok idx =>
        rw [hidx] at h
        cases h
        refine ⟨rfl, rfl, rfl, stoi_range hidx, fun _ => ?_⟩
        rcases widthOf_cases hw with h | h | h | h <;> simp [h]
    | none =>
      rw [hw] at h
      cases hdot : (c0 :: c1 :: rest).idxOf? '.' with
      | none => rw [hdot] at h; cases h; exact decoded_fresh id
      | some dot =>
        rw [hdot] at h
        simp only at h
        cases hidx : stoi (substr (c0 :: c1 :: rest) 1
            (if dot = 0 then (c0 :: c1 :: rest).length else dot - 1)) with
        | error e => rw [hidx] at h; cases h
        | ok idx =>
          cases hbit : stoi ((c0 :: c1 :: rest).drop (dot + 1)) with
          | error e => rw [hidx, hbit] at h; cases h
          | ok bit =>
            rw [hidx, hbit] at h
            cases h
            exact ⟨rfl, rfl, rfl, stoi_range hidx, fun _ => .inl rfl⟩

/-- The same tag, constructed with another identifier. -/
def S7Tag.withId (tag : S7Tag) (id : Nat) : S7Tag := { tag with identifier := id }

/-- The identifier a tag is constructed with plays no part in decoding its name. -/
theorem decodeTag_identifier (id : Nat) (tagName : CStr) :
    decodeTag id tagName = (decodeTag 0 tagName).map fun tag => tag.withId id := by
  match tagName with
  | [] => rfl
  | [_] => rfl
  | c0 :: c1 :: rest =>
    simp only [decodeTag]
    cases widthOf c1.toUpper with
    | some byteQty => cases stoi rest <;> rfl
    | none =>
      cases (c0 :: c1 :: rest).idxOf? '.' with
      | none => rfl
      | some dot =>
        simp only
        cases stoi (substr (c0 :: c1 :: rest) 1
            (if dot = 0 then (c0 :: c1 :: rest).length else dot - 1)) with
        | error e => rfl
        | ok idx => cases stoi ((c0 :: c1 :: rest).drop (dot + 1)) <;> rfl

/-- The address one past the tag's bytes, as `s7_register_tag` computes it. -/
def S7Tag.endIdx (tag : S7Tag) : Int := int32 (tag.idx + tag.byteQty)

/-- The range check of `s7_register_tag`. -/
def S7Tag.inRange (tag : S7Tag) : Bool := !(65536 < tag.endIdx)

@[simp] theorem S7Tag.withId_mem (tag : S7Tag) (id : Nat) : (tag.withId id).mem = tag.mem := rfl

@[simp] theorem S7Tag.withId_inRange (tag : S7Tag) (id : Nat) :
    (tag.withId id).inRange = tag.inRange := rfl

/-- The names `s7_register_tag` accepts: decoded without exception, into a block, in range. -/
def accepts (tagName : CStr) : Bool :=
  match decodeTag 0 tagName with
  | .ok tag => tag.mem.isSome && tag.inRange
  | .error _ => false

/-- The two updates `s7_register_tag` makes to the tag's block, in order: the second sees the
`Start` the first may have moved. -/
def S7MemoryBlock.extend (mem : S7MemoryBlock) (tag : S7Tag) : S7MemoryBlock :=
  let mem := if tag.idx < mem.start then { mem with start := tag.idx, resized := true } else mem
  if int32 (mem.start + mem.quantity) < tag.endIdx then
    { mem with quantity := int32 (tag.endIdx - mem.start), resized := true }
  else mem

end OipComms.S7
