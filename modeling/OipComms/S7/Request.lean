import OipComms.Lib.BitMemory
import OipComms.S7.Plc

/-!
# What a request says

The controller's reading of the frames `S7Com.cpp` builds: a job PDU with one item, which reads
bytes, or writes bytes or one bit, at an address counted in bits. `parseRequest` accepts a frame
only when every length, count and transport size in it agrees with the bytes that are there;
`Request.apply` is what the job does to the memory.

`parse_writeRequest` and `parse_readRequest` read the two templates back, for every valid address.
-/

namespace OipComms.S7

open BigEndian Slice BitMemory

/-- The memory of a controller. -/
abbrev Memory := Area → Bits

/-- A job with one item; `start` counts bytes, `address` bits. -/
inductive Request
  | read (area : Area) (start count : Nat)
  | writeBytes (area : Area) (start : Nat) (data : List UInt8)
  | writeBit (area : Area) (address : Nat) (value : Bool)
  deriving DecidableEq, Repr

/-- What a job does to the memory. -/
def Request.apply : Request → Memory → Memory
  | .read _ _ _, m => m
  | .writeBytes area start data, m => fun a => if a = area then storeBytes (m a) start data else m a
  | .writeBit area address value, m => fun a =>
    if a = area then storeBit (m a) address value else m a

/-- The number in `n` bytes of a frame. -/
def field (frame : List UInt8) (off n : Nat) : Nat := ofBE (slice frame off n)

/-- A frame that is a job with one item addressed in the manner both templates use. -/
structure Job (frame : List UInt8) : Prop where
  tpkt : slice frame 0 2 = [3, 0]
  tpktLength : field frame 2 2 = frame.length
  cotp : slice frame 4 3 = [2, 0xf0, 0x80]
  job : slice frame 7 2 = [0x32, 1]
  parameterLength : field frame 13 2 = 14
  dataLength : 17 + field frame 13 2 + field frame 15 2 = frame.length
  itemCount : field frame 18 1 = 1
  itemHead : slice frame 19 3 = [0x12, 0x0a, 0x10]
  dbNumber : field frame 25 2 = 0

instance (frame : List UInt8) : Decidable (Job frame) :=
  decidable_of_iff
    (slice frame 0 2 = [3, 0] ∧ field frame 2 2 = frame.length ∧ slice frame 4 3 = [2, 0xf0, 0x80] ∧
      slice frame 7 2 = [0x32, 1] ∧ field frame 13 2 = 14 ∧
      17 + field frame 13 2 + field frame 15 2 = frame.length ∧ field frame 18 1 = 1 ∧
      slice frame 19 3 = [0x12, 0x0a, 0x10] ∧ field frame 25 2 = 0)
    ⟨fun ⟨h1, h2, h3, h4, h5, h6, h7, h8, h9⟩ => ⟨h1, h2, h3, h4, h5, h6, h7, h8, h9⟩,
     fun ⟨h1, h2, h3, h4, h5, h6, h7, h8, h9⟩ => ⟨h1, h2, h3, h4, h5, h6, h7, h8, h9⟩⟩

/-- The address space of a memory code. -/
def areaOfCode (code : UInt8) : Option Area :=
  if code = 0x81 then some .I else if code = 0x82 then some .Q
  else if code = 0x83 then some .M else none

/-- The job of a frame. The function is 4 for a read and 5 for a write; an item's transport size is
1 for a bit and 2 for bytes, that of the data 3 for a bit and 4 for bytes, with a length in bits. -/
def parseRequest (frame : List UInt8) : Option Request :=
  if Job frame then
    match areaOfCode (frame.getD 27 0) with
    | none => none
    | some area =>
      let transport := field frame 22 1
      let count := field frame 23 2
      let address := field frame 28 3
      let dataTransport := field frame 32 1
      let dataBits := field frame 33 2
      let data := frame.drop 35
      if field frame 17 1 = 4 ∧ frame.length = 31 ∧ transport = 2 ∧ address % 8 = 0 then
        some (.read area (address / 8) count)
      else if field frame 17 1 = 5 ∧ transport = 2 ∧ dataTransport = 4 ∧ count = data.length ∧
          dataBits = 8 * data.length ∧ address % 8 = 0 then
        some (.writeBytes area (address / 8) data)
      else if field frame 17 1 = 5 ∧ transport = 1 ∧ dataTransport = 3 ∧ count = 1 ∧
          data.length = 1 ∧ dataBits = 1 then
        some (.writeBit area address (data.getD 0 0 ≠ 0))
      else none
  else none

/-- A job whose function is to read is a read. -/
theorem parseRequest_read {frame : List UInt8} {r : Request} (h : parseRequest frame = some r)
    (hfunction : field frame 17 1 = 4) : ∃ area start count, r = .read area start count := by
  unfold parseRequest at h
  by_cases hjob : Job frame
  · rw [if_pos hjob] at h
    cases hcode : areaOfCode (frame.getD 27 0) with
    | none =>
      rw [hcode] at h
      cases h
    | some area =>
      have hother : ¬ (4 : Nat) = 5 := by omega
      simp only [hcode, hfunction, hother, false_and, if_false] at h
      split at h
      · exact ⟨_, _, _, (Option.some.inj h).symm⟩
      · cases h
  · rw [if_neg hjob] at h
    cases h

/-! ## The templates -/

/-- A job with one item, laid out. -/
def jobFrame (ref : List UInt8) (function transport : UInt8) (count : Nat) (area : Area)
    (address : Nat) (data : List UInt8) : List UInt8 :=
  [3, 0] ++ toBE 2 (31 + data.length) ++ [2, 0xf0, 0x80, 0x32, 1, 0, 0] ++ ref ++ toBE 2 14 ++
    toBE 2 data.length ++ [function, 1, 0x12, 0x0a, 0x10, transport] ++ toBE 2 count ++
    [0, 0, areaCode area] ++ toBE 3 address ++ data

/-- The code of an area is read back as the area. -/
theorem areaOfCode_areaCode (area : Area) : areaOfCode (areaCode area) = some area := by
  cases area <;> rfl

/-- One byte is its number. -/
theorem ofBE_singleton (b : UInt8) : ofBE [b] = b.toNat := by
  rw [ofBE_cons, ofBE_nil, List.length_nil, Nat.pow_zero, Nat.mul_one, Nat.add_zero]

/-- A job that is laid out is one, and its fields are where the parser looks. -/
theorem jobFrame_fields {r₁ r₀ function transport : UInt8} {count : Nat} {area : Area}
    {address : Nat} {data frame : List UInt8}
    (hframe : frame = jobFrame [r₁, r₀] function transport count area address data)
    (hdata : data.length < 60000) (hcount : count < 65536) (haddress : address < 16777216) :
    Job frame ∧ frame.getD 27 0 = areaCode area ∧ field frame 17 1 = function.toNat ∧
      field frame 22 1 = transport.toNat ∧ field frame 23 2 = count ∧
      field frame 28 3 = address ∧ frame.length = 31 + data.length ∧ frame.drop 31 = data := by
  have hlen : frame.length = 31 + data.length := by
    rw [hframe, jobFrame]
    simp only [List.length_append, length_toBE, List.length_cons, List.length_nil]
  -- every field but the last is at a fixed place
  have htpkt : slice frame 2 2 = toBE 2 (31 + data.length) := by rw [hframe]; rfl
  have hparameters : slice frame 13 2 = toBE 2 14 := by rw [hframe]; rfl
  have hbytes : slice frame 15 2 = toBE 2 data.length := by rw [hframe]; rfl
  have hfunction : slice frame 17 1 = [function] := by rw [hframe]; rfl
  have hitems : slice frame 18 1 = [1] := by rw [hframe]; rfl
  have htransport : slice frame 22 1 = [transport] := by rw [hframe]; rfl
  have hcounted : slice frame 23 2 = toBE 2 count := by rw [hframe]; rfl
  have hdb : slice frame 25 2 = [0, 0] := by rw [hframe]; rfl
  have haddressed : slice frame 28 3 = toBE 3 address := by rw [hframe]; rfl
  have hjob : Job frame := by
    refine ⟨by rw [hframe]; rfl, ?_, by rw [hframe]; rfl, by rw [hframe]; rfl, ?_, ?_, ?_,
      by rw [hframe]; rfl, ?_⟩
    · rw [field, htpkt, ofBE_toBE_of_lt (by omega), hlen]
    · rw [field, hparameters, ofBE_toBE_of_lt (by decide)]
    · rw [field, field, hparameters, hbytes, ofBE_toBE_of_lt (by decide),
        ofBE_toBE_of_lt (by omega), hlen]
    · rw [field, hitems, ofBE_singleton]
      rfl
    · rw [field, hdb]
      rfl
  refine ⟨hjob, by rw [hframe]; rfl, ?_, ?_, ?_, ?_, hlen, by rw [hframe]; rfl⟩
  · rw [field, hfunction, ofBE_singleton]
  · rw [field, htransport, ofBE_singleton]
  · rw [field, hcounted, ofBE_toBE_of_lt (by omega)]
  · rw [field, haddressed, ofBE_toBE_of_lt (by omega)]

/-- A number is cut down to its lowest byte. -/
theorem u8_natCast (n : Nat) : u8 n = UInt8.ofNat n := by
  rw [u8, ← UInt8.toNat_inj, UInt8.toNat_ofNat', UInt8.toNat_ofNat']
  omega

/-- The address bytes both templates compute. -/
theorem address_bytes (n : Nat) (h : n < 65536) :
    u8 ((int32 ((n : Int) * 8)).tdiv 65536) = UInt8.ofNat (8 * n / 65536) ∧
    u8 ((int32 ((n : Int) * 8)).tdiv 256) = UInt8.ofNat (8 * n / 256) ∧
    u8 ((int32 ((n : Int) * 8)).tmod 256) = UInt8.ofNat (8 * n) := by
  have hint : int32 ((n : Int) * 8) = ((8 * n : Nat) : Int) := by
    rw [int32_eq_self (by omega) (by omega)]
    omega
  rw [hint]
  refine ⟨?_, ?_, ?_⟩
  · exact u8_natCast (8 * n / 65536)
  · exact u8_natCast (8 * n / 256)
  · rw [show ((8 * n : Nat) : Int).tmod 256 = ((8 * n % 256 : Nat) : Int) from rfl, u8_natCast,
      ← UInt8.toNat_inj, UInt8.toNat_ofNat', UInt8.toNat_ofNat']
    omega

/-- The value bytes are the value, big-endian. -/
theorem valueBytes_eq (value : UInt64) : valueBytes value = toBE 8 value.toNat := by
  have hbyte : ∀ k : UInt64, k.toNat < 64 →
      ((value >>> k) &&& 0xFF).toUInt8 = UInt8.ofNat (value.toNat / 2 ^ k.toNat) := by
    intro k hk
    rw [← UInt8.toNat_inj, UInt64.toNat_toUInt8, UInt64.toNat_and, UInt64.toNat_shiftRight,
      Nat.mod_eq_of_lt hk, Nat.shiftRight_eq_div_pow, UInt8.toNat_ofNat',
      show UInt64.toNat 0xFF = 2 ^ 8 - 1 from rfl, Nat.and_two_pow_sub_one_eq_mod, Nat.mod_mod]
  simp only [valueBytes, List.range, List.range.loop, List.map_cons, List.map_nil, toBE]
  rw [hbyte _ (by decide), hbyte _ (by decide), hbyte _ (by decide), hbyte _ (by decide),
    hbyte _ (by decide), hbyte _ (by decide), hbyte _ (by decide), hbyte _ (by decide)]
  rfl

/-! ## Reading the templates -/

/-- A tag as `DecodeTag` makes it: of a width it knows, with a bit only on a single byte. -/
def S7Tag.Sized (tag : S7Tag) : Prop :=
  tag.byteQty = 1 ∨ tag.bitIdx = -1 ∧ (tag.byteQty = 2 ∨ tag.byteQty = 4 ∨ tag.byteQty = 8)

instance (tag : S7Tag) : Decidable tag.Sized := by
  unfold S7Tag.Sized
  infer_instance

/-- A tag that denotes an address: in one of the areas, in range, of a known width, with a bit only
on a single byte. -/
structure S7Tag.Valid (tag : S7Tag) (area : Area) : Prop where
  mem : tag.mem = some area
  idx_nonneg : 0 ≤ tag.idx
  end_le : tag.idx + tag.byteQty ≤ 65536
  byteQty : tag.byteQty = 1 ∨ tag.byteQty = 2 ∨ tag.byteQty = 4 ∨ tag.byteQty = 8
  bitIdx : tag.bitIdx = -1 ∨ (tag.byteQty = 1 ∧ 0 ≤ tag.bitIdx ∧ tag.bitIdx < 8)

/-- The low byte of the address a write frame carries. -/
def S7Tag.lowByte (tag : S7Tag) : UInt8 :=
  if tag.bitIdx = -1 then u8 ((int32 (tag.idx * 8)).tmod 256)
  else u8 ((int32 (tag.idx * 8)).tmod 256) ||| u8 tag.bitIdx

/-- The address a write frame carries, in bits. -/
def S7Tag.address (tag : S7Tag) : Nat :=
  ofBE [u8 ((int32 (tag.idx * 8)).tdiv 65536), u8 ((int32 (tag.idx * 8)).tdiv 256), tag.lowByte]

/-- The job of a tag's pending write. -/
def S7Tag.job (tag : S7Tag) (area : Area) : Request :=
  if tag.bitIdx = -1 then
    .writeBytes area (tag.address / 8) (toBE tag.byteQty tag.pendingValue.toNat)
  else .writeBit area tag.address (tag.pendingValue.toNat % 256 ≠ 0)

/-- A valid tag has as many bytes as its type. -/
theorem S7Tag.Valid.sized {tag : S7Tag} {area : Area} (h : tag.Valid area) : tag.Sized := by
  have hqty := h.byteQty
  have hbit := h.bitIdx
  unfold S7Tag.Sized
  omega

/-- An address fits in three bytes. -/
theorem S7Tag.address_lt (tag : S7Tag) : tag.address < 256 ^ 3 := ofBE_lt _

/-- The bytes of an address, as the source computes them. -/
theorem toBE_address (tag : S7Tag) :
    toBE 3 tag.address =
      [u8 ((int32 (tag.idx * 8)).tdiv 65536), u8 ((int32 (tag.idx * 8)).tdiv 256), tag.lowByte] :=
  toBE_ofBE [_, _, _]

/-- Bytes are addressed at their first bit, also where the address wraps around. -/
theorem address_mod {tag : S7Tag} (hbit : tag.bitIdx = -1) : tag.address % 8 = 0 := by
  have hlow : ((int32 (tag.idx * 8)).tmod 256 % 256) % 8 = 0 := by
    rw [Int.tmod_def, int32]
    omega
  simp only [S7Tag.address, S7Tag.lowByte, if_pos hbit, ofBE_cons, ofBE_nil, List.length_cons,
    List.length_nil, u8, UInt8.toNat_ofNat']
  omega

/-- A slice of what follows is a slice further on. -/
theorem slice_drop {α : Type} (l : List α) (i k n : Nat) : slice (l.drop i) k n = slice l (i + k) n := by
  rw [slice, slice, List.drop_drop]

/-- A frame that asks for bytes is read as one. -/
theorem parse_read {r₁ r₀ : UInt8} {count : Nat} {area : Area} {start : Nat} (hcount : count < 65536)
    (hstart : start < 65536) :
    parseRequest (jobFrame [r₁, r₀] 4 2 count area (8 * start) []) =
      some (.read area start count) := by
  obtain ⟨hjob, hcode, hfunction, htransport, hcounted, haddress, hlen, _⟩ :=
    jobFrame_fields (rfl : jobFrame [r₁, r₀] 4 2 count area (8 * start) [] = _) (by decide) hcount
      (by omega)
  rw [parseRequest, if_pos hjob, hcode, areaOfCode_areaCode]
  simp only [hfunction, htransport, hcounted, haddress]
  rw [if_pos ⟨rfl, hlen, rfl, by omega⟩, show 8 * start / 8 = start by omega]

/-- A frame that writes bytes is read as one. -/
theorem parse_writeBytes {r₁ r₀ : UInt8} {area : Area} {address : Nat} {bytes : List UInt8}
    (hbytes : bytes.length < 8192) (haddress : address < 16777216) (hwhole : address % 8 = 0) :
    parseRequest (jobFrame [r₁, r₀] 5 2 bytes.length area address
      ([0, 4] ++ toBE 2 (8 * bytes.length) ++ bytes)) =
        some (.writeBytes area (address / 8) bytes) := by
  have hdata : ([0, 4] ++ toBE 2 (8 * bytes.length) ++ bytes).length = 4 + bytes.length := by
    simp only [List.length_append, length_toBE, List.length_cons, List.length_nil]
  obtain ⟨hjob, hcode, hfunction, htransport, hcounted, haddressed, hlen, hdrop⟩ :=
    jobFrame_fields (rfl : jobFrame [r₁, r₀] 5 2 bytes.length area address
      ([0, 4] ++ toBE 2 (8 * bytes.length) ++ bytes) = _) (by omega) (by omega) haddress
  have hdataTransport : field (jobFrame [r₁, r₀] 5 2 bytes.length area address
      ([0, 4] ++ toBE 2 (8 * bytes.length) ++ bytes)) 32 1 = 4 := by
    rw [field, show 32 = 31 + 1 from rfl, ← slice_drop, hdrop]
    exact ofBE_singleton 4
  have hbits : field (jobFrame [r₁, r₀] 5 2 bytes.length area address
      ([0, 4] ++ toBE 2 (8 * bytes.length) ++ bytes)) 33 2 = 8 * bytes.length := by
    rw [field, show 33 = 31 + 2 from rfl, ← slice_drop, hdrop,
      show slice ([0, 4] ++ toBE 2 (8 * bytes.length) ++ bytes) 2 2 = toBE 2 (8 * bytes.length)
        from rfl, ofBE_toBE_of_lt (by omega)]
  have hpayload : (jobFrame [r₁, r₀] 5 2 bytes.length area address
      ([0, 4] ++ toBE 2 (8 * bytes.length) ++ bytes)).drop 35 = bytes := by
    rw [show 35 = 31 + 4 from rfl, ← List.drop_drop, hdrop]
    rfl
  rw [parseRequest, if_pos hjob, hcode, areaOfCode_areaCode]
  simp only [hfunction, htransport, hcounted, haddressed, hdataTransport, hbits, hpayload]
  rw [if_neg (fun h => absurd h.1 (by decide)), if_pos ⟨rfl, rfl, trivial, trivial, trivial, hwhole⟩]

/-- A frame that writes a bit is read as one. -/
theorem parse_writeBit {r₁ r₀ b : UInt8} {area : Area} {address : Nat}
    (haddress : address < 16777216) :
    parseRequest (jobFrame [r₁, r₀] 5 1 1 area address [0, 3, 0, 1, b]) =
      some (.writeBit area address (b ≠ 0)) := by
  obtain ⟨hjob, hcode, hfunction, htransport, hcounted, haddress, hlen, hdrop⟩ :=
    jobFrame_fields (rfl : jobFrame [r₁, r₀] 5 1 1 area address [0, 3, 0, 1, b] = _) (by simp)
      (by omega) haddress
  have hdataTransport : field (jobFrame [r₁, r₀] 5 1 1 area address [0, 3, 0, 1, b]) 32 1 = 3 := by
    rw [field, show 32 = 31 + 1 from rfl, ← slice_drop, hdrop]
    exact ofBE_singleton 3
  have hbits : field (jobFrame [r₁, r₀] 5 1 1 area address [0, 3, 0, 1, b]) 33 2 = 1 := by
    rw [field, show 33 = 31 + 2 from rfl, ← slice_drop, hdrop]
    rfl
  have hpayload : (jobFrame [r₁, r₀] 5 1 1 area address [0, 3, 0, 1, b]).drop 35 = [b] := by
    rw [show 35 = 31 + 4 from rfl, ← List.drop_drop, hdrop]
    rfl
  rw [parseRequest, if_pos hjob, hcode, areaOfCode_areaCode]
  simp only [hfunction, htransport, hcounted, haddress, hdataTransport, hbits, hpayload]
  rw [if_neg (fun h => absurd h.1 (by decide)), if_neg (fun h => absurd h.2.1 (by decide)),
    if_pos ⟨rfl, rfl, trivial, trivial, rfl, trivial⟩]
  rfl

/-- The read template filled in. -/
theorem readRequest_eq {area : Area} {start count : Nat} (hstart : start < 65536) :
    readRequest area start count = jobFrame [0, 9] 4 2 count area (8 * start) [] := by
  obtain ⟨h2, h1, h0⟩ := address_bytes start hstart
  have hhigh : u8 ((count : Int).tdiv 256) = UInt8.ofNat (count / 256) := u8_natCast (count / 256)
  have hlow : u8 ((count : Int).tmod 256) = UInt8.ofNat count := by
    rw [show (count : Int).tmod 256 = ((count % 256 : Nat) : Int) from rfl, u8_natCast,
      ← UInt8.toNat_inj, UInt8.toNat_ofNat', UInt8.toNat_ofNat']
    omega
  rw [readRequest, h2, h1, h0, hhigh, hlow, jobFrame]
  simp only [toBE, Nat.pow_zero, Nat.div_one]
  cases area <;> rfl

/-- The request of a chunk is read as one. -/
theorem parse_readRequest {area : Area} {start count : Nat} (hstart : start < 65536)
    (hcount : count < 65536) :
    parseRequest (readRequest area start count) = some (.read area start count) := by
  rw [readRequest_eq hstart]
  exact parse_read hcount hstart

/-- The write template filled in for bytes. -/
theorem writeRequest_bytes {tag : S7Tag} {area : Area} (h : tag.Sized) (hbit : tag.bitIdx = -1) :
    writeRequest area tag =
      jobFrame [1, 0x6f] 5 2 (toBE tag.byteQty tag.pendingValue.toNat).length area tag.address
        ([0, 4] ++ toBE 2 (8 * (toBE tag.byteQty tag.pendingValue.toNat).length) ++
          toBE tag.byteQty tag.pendingValue.toNat) := by
  have hqty : tag.byteQty = 1 ∨ tag.byteQty = 2 ∨ tag.byteQty = 4 ∨ tag.byteQty = 8 := by
    unfold S7Tag.Sized at h
    omega
  rw [length_toBE, writeRequest, writeHeader, valueBytes_eq, jobFrame, toBE_address, S7Tag.lowByte,
    if_pos hbit]
  simp only [ne_eq, hbit, not_true, if_false]
  rcases hqty with hq | hq | hq | hq <;>
  · rw [hq]
    simp only [toBE, Nat.pow_zero, Nat.div_one, writeIqmBytes, List.set_cons_succ,
      List.set_cons_zero, List.cons_append, List.nil_append, List.length_cons, List.length_nil]
    rfl

/-- The write template filled in for a bit. -/
theorem writeRequest_bit {tag : S7Tag} {area : Area} (h : tag.Sized) (hbit : tag.bitIdx ≠ -1) :
    writeRequest area tag =
      jobFrame [1, 0x6f] 5 1 1 area tag.address [0, 3, 0, 1, UInt8.ofNat tag.pendingValue.toNat] := by
  have hqty : tag.byteQty = 1 := h.resolve_right fun hwide => hbit hwide.1
  rw [writeRequest, writeHeader, valueBytes_eq, jobFrame, toBE_address, S7Tag.lowByte, if_neg hbit,
    hqty]
  simp only [ne_eq, hbit, not_false_eq_true, if_true, writeIqmBytes, List.set_cons_succ,
    List.set_cons_zero, List.cons_append, List.nil_append, List.getD_cons_succ,
    List.getD_cons_zero, List.length_cons, List.length_nil, toBE, Nat.pow_zero, Nat.div_one]
  rfl

/-- The write frame is the tag's job. -/
theorem parse_writeRequest {tag : S7Tag} (h : tag.Sized) (area : Area) :
    Job (writeRequest area tag) ∧ parseRequest (writeRequest area tag) = some (tag.job area) := by
  have hqty : tag.byteQty ≤ 8 := by
    unfold S7Tag.Sized at h
    omega
  have haddress := tag.address_lt
  have hparse : parseRequest (writeRequest area tag) = some (tag.job area) := by
    by_cases hbit : tag.bitIdx = -1
    · have hwhole := address_mod hbit
      rw [writeRequest_bytes h hbit, S7Tag.job, if_pos hbit]
      exact parse_writeBytes (by rw [length_toBE]; omega) (by omega) hwhole
    · rw [writeRequest_bit h hbit, S7Tag.job, if_neg hbit, parse_writeBit (by omega)]
      have hzero : UInt8.ofNat tag.pendingValue.toNat = 0 ↔ tag.pendingValue.toNat % 256 = 0 := by
        rw [← UInt8.toNat_inj, UInt8.toNat_ofNat']
        rfl
      simp only [ne_eq, hzero]
  refine ⟨?_, hparse⟩
  by_contra hjob
  rw [parseRequest, if_neg hjob] at hparse
  cases hparse

/-- The address of a tag that denotes one. -/
theorem S7Tag.Valid.address_eq {tag : S7Tag} {area : Area} (h : tag.Valid area) :
    tag.address = 8 * tag.idx.toNat + if tag.bitIdx = -1 then 0 else tag.bitIdx.toNat := by
  obtain ⟨n, hn⟩ := Int.eq_ofNat_of_zero_le h.idx_nonneg
  have hend := h.end_le
  have hqty := h.byteQty
  obtain ⟨h2, h1, h0⟩ := address_bytes n (by omega)
  rw [S7Tag.address, S7Tag.lowByte, hn, h2, h1, h0, Int.toNat_natCast]
  by_cases hbit : tag.bitIdx = -1
  · simp only [if_pos hbit, ofBE_cons, ofBE_nil, List.length_cons, List.length_nil,
      UInt8.toNat_ofNat']
    omega
  · obtain ⟨_, hlo, hhi⟩ := h.bitIdx.resolve_left hbit
    obtain ⟨k, hk⟩ := Int.eq_ofNat_of_zero_le hlo
    have hlow : UInt8.ofNat (8 * n) ||| u8 k = UInt8.ofNat (8 * n + k) := by
      have hor : 8 * n % 256 ||| k = 8 * n % 256 + k := by
        have hshift : 8 * n % 256 = (n % 32) <<< 3 := by
          rw [Nat.shiftLeft_eq]
          omega
        rw [hshift]
        exact (Nat.shiftLeft_add_eq_or_of_lt (by omega) _).symm
      rw [u8_natCast, ← UInt8.toNat_inj, UInt8.toNat_or, UInt8.toNat_ofNat', UInt8.toNat_ofNat',
        UInt8.toNat_ofNat', Nat.mod_eq_of_lt (show k < 2 ^ 8 by omega), show 2 ^ 8 = 256 from rfl,
        hor]
      omega
    rw [if_neg hbit, if_neg hbit, hk, hlow, Int.toNat_natCast]
    simp only [ofBE_cons, ofBE_nil, List.length_cons, List.length_nil, UInt8.toNat_ofNat']
    omega

end OipComms.S7
