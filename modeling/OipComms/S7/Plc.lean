import OipComms.Lib.BigEndian
import OipComms.Lib.FirstMatch
import OipComms.Lib.Slice
import OipComms.S7.Tag

/-!
# One S7 connection

The class `S7Plc` of `S7Com.cpp`: the shared buffer, the three memory blocks, the registered tags
and the request/response exchange they share. The socket is a parameter, `Net`: what `send` and
`recv` answer is the environment's choice, and the model keeps the kernel's and the peer's side of
the connection in the field `sock`.

A method that runs under a lock is one function here; the polling thread is in the functions it
calls, and what it does between two of them is the caller's choice of state.
-/

namespace OipComms.S7

open BigEndian FirstMatch Slice

universe u

/-- The socket calls a connection makes. `recv` answers `none` on an error and `some []` when the
peer has closed; it never returns more bytes than it was asked for. -/
structure Net (σ : Type u) where
  send : σ → List UInt8 → Int × σ
  recv : σ → Nat → Option (List UInt8) × σ
  close : σ → σ
  invalidSocket : σ
  recv_le : ∀ s n bytes, (recv s n).1 = some bytes → bytes.length ≤ n

/-- `S7Plc`. -/
structure S7Plc (σ : Type u) where
  buff : List UInt8 := List.replicate 1000 0
  i : S7MemoryBlock := {}
  q : S7MemoryBlock := {}
  m : S7MemoryBlock := {}
  pduMaxLength : Int := 960
  sock : σ
  state : Nat := 0
  tags : List S7Tag := []
  identifier : Nat
  plcHostName : CStr

variable {σ : Type u}

/-- `sizeof(Buff)`. -/
def buffSize : Nat := 1000

/-- `S7Plc::S7Plc`, with the class-wide `IdCounter` it takes the identifier from. -/
def S7Plc.new (net : Net σ) (idCounter : Nat) (host : CStr) : S7Plc σ :=
  { sock := net.invalidSocket, identifier := (idCounter + 1) &&& 0x7F, plcHostName := host }

/-- The block a tag's `Mem` points to. -/
def S7Plc.block (plc : S7Plc σ) : Area → S7MemoryBlock
  | .I => plc.i
  | .Q => plc.q
  | .M => plc.m

def S7Plc.setBlock (plc : S7Plc σ) (area : Area) (mem : S7MemoryBlock) : S7Plc σ :=
  match area with
  | .I => { plc with i := mem }
  | .Q => { plc with q := mem }
  | .M => { plc with m := mem }

/-- A block that is stored is there, and the others are as they were. -/
@[simp] theorem S7Plc.block_setBlock (plc : S7Plc σ) (a b : Area) (mem : S7MemoryBlock) :
    (plc.setBlock a mem).block b = if b = a then mem else plc.block b := by
  cases a <;> cases b <;> rfl

@[simp] theorem S7Plc.setBlock_tags (plc : S7Plc σ) (a : Area) (mem : S7MemoryBlock) :
    (plc.setBlock a mem).tags = plc.tags := by
  cases a <;> rfl

@[simp] theorem S7Plc.setBlock_sock (plc : S7Plc σ) (a : Area) (mem : S7MemoryBlock) :
    (plc.setBlock a mem).sock = plc.sock := by
  cases a <;> rfl

@[simp] theorem S7Plc.setBlock_state (plc : S7Plc σ) (a : Area) (mem : S7MemoryBlock) :
    (plc.setBlock a mem).state = plc.state := by
  cases a <;> rfl

@[simp] theorem S7Plc.setBlock_pduMaxLength (plc : S7Plc σ) (a : Area) (mem : S7MemoryBlock) :
    (plc.setBlock a mem).pduMaxLength = plc.pduMaxLength := by
  cases a <;> rfl

@[simp] theorem S7Plc.setBlock_identifier (plc : S7Plc σ) (a : Area) (mem : S7MemoryBlock) :
    (plc.setBlock a mem).identifier = plc.identifier := by
  cases a <;> rfl

@[simp] theorem S7Plc.setBlock_plcHostName (plc : S7Plc σ) (a : Area) (mem : S7MemoryBlock) :
    (plc.setBlock a mem).plcHostName = plc.plcHostName := by
  cases a <;> rfl

/-! ## The wire templates -/

/-- `Read_IQM_Bytes` as the class initialises it. -/
def readIqmBytes : List UInt8 :=
  [0x03, 0x00, 0x00, 0x1f, 0x02, 0xf0, 0x80, 0x32, 0x01, 0x00, 0x00, 0x00, 0x09, 0x00, 0x0e, 0x00,
   0x00, 0x04, 0x01, 0x12, 0x0a, 0x10, 0x02, 0x00, 128, 0x00, 0x00, 0x83, 0x00, 0x00, 0x00]

/-- `Write_IQM_Bytes` as the class initialises it. -/
def writeIqmBytes : List UInt8 :=
  [0x03, 0x00, 0x00, 0x23, 0x02, 0xf0, 0x80, 0x32, 0x01, 0x00, 0x00, 0x01, 0x6f, 0x00, 0x0e, 0x00,
   0x05, 0x05, 0x01, 0x12, 0x0a, 0x10, 0x02, 0x00, 0x01, 0x00, 0x00, 0x82, 0x00, 0x00, 0x00, 0x00,
   0x04, 0x00, 0x01]

/-- The memory code of an address space. -/
def areaCode : Area → UInt8
  | .I => 0x81
  | .Q => 0x82
  | .M => 0x83

/-- The request `S7_read(memory, start, quantity)` fills in. C++ division truncates. -/
def readRequest (area : Area) (start quantity : Int) : List UInt8 :=
  let r := readIqmBytes
  let r := r.set 23 (u8 (quantity.tdiv 256))
  let r := r.set 24 (u8 (quantity.tmod 256))
  let r := r.set 27 (areaCode area)
  let r := r.set 28 (u8 ((int32 (start * 8)).tdiv 65536))
  let r := r.set 29 (u8 ((int32 (start * 8)).tdiv 256))
  r.set 30 (u8 ((int32 (start * 8)).tmod 256))

/-- The first 35 bytes `S7_sendTag` fills in for a tag in the given area. -/
def writeHeader (area : Area) (tag : S7Tag) : List UInt8 :=
  let b := writeIqmBytes
  let b := b.set 3 (u8 (35 + tag.byteQty))
  let b := b.set 16 (u8 ((b.getD 16 0).toNat + tag.byteQty - 1))
  let b := b.set 27 (areaCode area)
  let b := b.set 28 (u8 ((int32 (tag.idx * 8)).tdiv 65536))
  let b := b.set 29 (u8 ((int32 (tag.idx * 8)).tdiv 256))
  let b := b.set 30 (u8 ((int32 (tag.idx * 8)).tmod 256))
  if tag.bitIdx ≠ -1 then
    let b := b.set 22 1
    let b := b.set 30 (b.getD 30 0 ||| u8 tag.bitIdx)
    b.set 32 3
  else
    let b := b.set 24 (u8 tag.byteQty)
    b.set 34 (u8 (tag.byteQty <<< 3))

/-- `ValueBytes`: the 64-bit value, most significant byte first. -/
def valueBytes (value : UInt64) : List UInt8 :=
  (List.range 8).map fun i => ((value >>> (8 * (7 - i)).toUInt64) &&& 0xFF).toUInt8

/-- The frame `S7_sendTag` sends: header and the low `ByteQty` bytes of the pending value. -/
def writeRequest (area : Area) (tag : S7Tag) : List UInt8 :=
  writeHeader area tag ++ ((valueBytes tag.pendingValue).drop (8 - tag.byteQty)).take tag.byteQty

/-! ## The exchange -/

/-- `S7_sockClose`: the answer is always 0. -/
def S7Plc.sockClose (net : Net σ) (plc : S7Plc σ) : S7Plc σ :=
  { plc with sock := net.close plc.sock, state := 0 }

/-- The body loop of `S7_TcpExchange`: `recv` until `Size` reaches `ExpectedSize`. Each round brings
at least one byte, so `expected - size` rounds are enough. -/
def S7Plc.recvBody (net : Net σ) (expected : Nat) : Nat → Nat → S7Plc σ → Int × S7Plc σ
  | 0, size, plc => (size, plc)
  | fuel + 1, size, plc =>
    if size < expected then
      match net.recv plc.sock (buffSize - size) with
      | (some (b :: bytes), sock) =>
        S7Plc.recvBody net expected fuel (size + (bytes.length + 1))
          { plc with sock := sock, buff := overwrite plc.buff size (b :: bytes) }
      | (_, sock) => (0, S7Plc.sockClose net { plc with sock := sock })
    else (size, plc)

/-- `S7_TcpExchange`: the number of bytes of the reply, or 0. Two of the exits that answer 0 leave
the connection as it is. -/
def S7Plc.tcpExchange (net : Net σ) (plc : S7Plc σ) (buffer : List UInt8) : Int × S7Plc σ :=
  let (sent, sock) := net.send plc.sock buffer
  let plc := { plc with sock := sock }
  if sent ≠ buffer.length then (0, plc.sockClose net)
  else
    match net.recv plc.sock buffSize with
    | (none, sock) => (0, S7Plc.sockClose net { plc with sock := sock })
    | (some bytes, sock) =>
      let plc := { plc with sock := sock, buff := overwrite plc.buff 0 bytes }
      if bytes.length < 4 then (0, plc.sockClose net)
      else if plc.buff.getD 0 0 ≠ 3 then (0, plc)
      else
        let expected := (plc.buff.getD 2 0).toNat <<< 8 + (plc.buff.getD 3 0).toNat
        if buffSize < expected then (0, plc)
        else S7Plc.recvBody net expected (expected - bytes.length) bytes.length plc

/-! ## Reading -/

/-- `S7_read(memory, start, quantity)`: one chunk of a block. The copy is in bounds when the chunk
lies in the image; outside it the C++ is undefined. -/
def S7Plc.s7ReadChunk (net : Net σ) (plc : S7Plc σ) (area : Area) (start quantity : Int) :
    S7Plc σ :=
  let (ret, plc) := plc.tcpExchange net (readRequest area start quantity)
  if ret = 25 + quantity ∧ plc.buff.getD 21 0 = 0xFF then
    let mem := plc.block area
    let bytes := (plc.buff.drop 25).take quantity.toNat
    let memImage := overwrite mem.memImage (start - mem.start).toNat bytes
    plc.setBlock area { mem with memImage := memImage }
  else plc

/-- `std::vector::resize`. -/
def resize (image : List UInt8) (n : Nat) : List UInt8 :=
  image.take n ++ List.replicate (n - image.length) 0

/-- The chunk loop of `S7_read(mem)` over the snapshot `start`, `quantity`; `none` when it has not
ended after `fuel` chunks. -/
def S7Plc.readChunks (net : Net σ) (area : Area) (start quantity : Int) :
    Nat → Int → Int → S7Plc σ → Option (S7Plc σ)
  | 0, _, quantityToRead, plc => if quantityToRead = 0 then some plc else none
  | fuel + 1, i, quantityToRead, plc =>
    if quantityToRead = 0 then some plc
    else
      let plc := plc.s7ReadChunk net area i quantityToRead
      let i := int32 (i + quantityToRead)
      S7Plc.readChunks net area start quantity fuel i
        (min (plc.pduMaxLength - 25) (int32 (quantity - i + start))) plc

/-- `S7_read(mem)`: the whole block, in chunks the negotiated length allows. -/
def S7Plc.s7ReadBlock (net : Net σ) (fuel : Nat) (plc : S7Plc σ) (area : Area) :
    Option (S7Plc σ) :=
  let mem := plc.block area
  if mem.quantity = 0 then some plc
  else
    let mem := if mem.resized then
        { mem with memImage := resize mem.memImage mem.quantity.toNat, resized := false }
      else mem
    let plc := plc.setBlock area mem
    S7Plc.readChunks net area mem.start mem.quantity fuel mem.start
      (min (plc.pduMaxLength - 25) mem.quantity) plc

/-- The loop of `S7_read(tag)`: byte `i` of the reversed copy goes to bits `8 * i` and up. -/
def fromLittleEndian : Nat → List UInt8 → UInt64 → UInt64
  | _, [], value => value
  | i, b :: rest, value => fromLittleEndian (i + 1) rest (value ||| b.toUInt64 <<< (8 * i).toUInt64)

/-- `S7_read(tag)`: the tag's value out of the image, 0 when the image cannot give it. The source
shifts by the bit number as it is, also by one below -1, for which C++ gives no value; here that is a
shift by 0. -/
def S7Plc.s7ReadTag (plc : S7Plc σ) (tag : S7Tag) : UInt64 :=
  match tag.mem with
  | none => 0
  | some area =>
    let mem := plc.block area
    if plc.state ≠ 2 then 0
    else if mem.resized ∨ tag.idx < mem.start ∨ int32 (mem.start + mem.quantity) < tag.endIdx then 0
    else
      let b := ((mem.memImage.drop (tag.idx - mem.start).toNat).take tag.byteQty).reverse
      let value := fromLittleEndian 0 b 0
      if tag.bitIdx ≠ -1 then (value >>> tag.bitIdx.toNat.toUInt64) &&& 1 else value

/-! ## Writing -/

/-- `S7_sendTag`: 0 delivered, 1 still pending, -1 rejected by the PLC. -/
def S7Plc.s7SendTag (net : Net σ) (plc : S7Plc σ) (tag : S7Tag) : Int × S7Plc σ × S7Tag :=
  if !tag.writePending then (0, plc, tag)
  else
    match tag.mem with
    | none => (1, plc, tag)
    | some area =>
      if plc.state ≠ 2 then (1, plc, tag)
      else
        let frame := writeRequest area tag
        let plc := { plc with buff := overwrite plc.buff 0 frame }
        let (ret, plc) := plc.tcpExchange net frame
        let errorCode := plc.buff.getD 21 0
        if ret = 22 ∧ errorCode = 0xFF then (0, plc, { tag with writePending := false })
        else if ret = 22 then (-1, plc, { tag with writePending := false })
        else (1, plc, tag)

/-- `S7_write(tag, Value)`: the value is cached, `S7_sendTag` transmits it. -/
def S7Tag.s7Write (tag : S7Tag) (value : UInt64) : S7Tag :=
  { tag with pendingValue := value, writePending := true }

/-! ## The methods that search by identifier -/

/-- `identifier & 0xFFFFFF`. -/
def tagPart (identifier : Int) : Int := identifier % 16777216

/-- The test each by-identifier method makes on the tags, in order. -/
def hasId (identifier : Int) (tag : S7Tag) : Bool := (tag.identifier : Int) = tagPart identifier

/-- An accepted tag: its block extended, itself pushed on `Tags`. -/
def S7Plc.addTag (plc : S7Plc σ) (area : Area) (tag : S7Tag) : S7Plc σ :=
  { plc.setBlock area ((plc.block area).extend tag) with tags := plc.tags ++ [tag] }

/-- The handle of a tag on a connection: `(Identifier << 24) | tag->Identifier`. -/
def S7Plc.handle (plc : S7Plc σ) (tag : S7Tag) : Int :=
  (plc.identifier <<< 24 ||| tag.identifier : Nat)

/-- A handle is not negative. -/
theorem S7Plc.handle_nonneg (plc : S7Plc σ) (tag : S7Tag) : 0 ≤ plc.handle tag :=
  Int.natCast_nonneg _

/-- A tag that is added is the last. -/
@[simp] theorem S7Plc.addTag_tags (plc : S7Plc σ) (area : Area) (tag : S7Tag) :
    (plc.addTag area tag).tags = plc.tags ++ [tag] := rfl

@[simp] theorem S7Plc.addTag_identifier (plc : S7Plc σ) (area : Area) (tag : S7Tag) :
    (plc.addTag area tag).identifier = plc.identifier := by
  simp only [S7Plc.addTag, S7Plc.setBlock_identifier]

@[simp] theorem S7Plc.addTag_plcHostName (plc : S7Plc σ) (area : Area) (tag : S7Tag) :
    (plc.addTag area tag).plcHostName = plc.plcHostName := by
  simp only [S7Plc.addTag, S7Plc.setBlock_plcHostName]

/-- `s7_register_tag`, with the class-wide tag counter. -/
def S7Plc.s7RegisterTag (plc : S7Plc σ) (idCounter : Nat) (tagName : CStr) :
    Except StoiError Int × S7Plc σ :=
  match decodeTag idCounter tagName with
  | .error e => (.error e, plc)
  | .ok tag =>
    match tag.mem with
    | none => (.ok (-1), plc)
    | some area =>
      if !tag.inRange then (.ok (-1), plc)
      else (.ok (plc.handle tag), plc.addTag area tag)

/-- What `s7_register_tag` does: a refused name changes nothing, an accepted one adds its tag. -/
theorem S7Plc.s7RegisterTag_cases (plc : S7Plc σ) (c : Nat) (tagName : CStr) :
    (accepts tagName = false ∧ (plc.s7RegisterTag c tagName).2 = plc ∧
      ∀ h, (plc.s7RegisterTag c tagName).1 = .ok h → h = -1) ∨
    (accepts tagName = true ∧ ∃ tag area, decodeTag c tagName = .ok tag ∧ tag.mem = some area ∧
      tag.inRange = true ∧
      plc.s7RegisterTag c tagName = (.ok (plc.handle tag), plc.addTag area tag)) := by
  have hdecode := decodeTag_identifier c tagName
  unfold S7Plc.s7RegisterTag accepts
  rw [hdecode]
  cases decodeTag 0 tagName with
  | error e => exact .inl ⟨rfl, rfl, fun h heq => nomatch heq⟩
  | ok tag =>
    simp only [Except.map, S7Tag.withId_mem, S7Tag.withId_inRange]
    cases hmem : tag.mem with
    | none =>
      left
      exact ⟨rfl, rfl, fun h heq => (Except.ok.inj heq).symm⟩
    | some area =>
      by_cases hrange : tag.inRange = true
      · right
        simp only [hrange, Option.isSome_some, Bool.true_and, Bool.not_true, Bool.false_eq_true,
          if_false, true_and]
        exact ⟨tag.withId c, area, rfl, hmem, hrange, rfl⟩
      · left
        rw [Bool.not_eq_true] at hrange
        simp only [hrange, Option.isSome_some, Bool.true_and, Bool.not_false, if_true, true_and]
        exact fun h heq => (Except.ok.inj heq).symm

/-- `s7_unregister_tag`: the block is left as it is. -/
def S7Plc.s7UnregisterTag (plc : S7Plc σ) (identifier : Int) : S7Plc σ :=
  { plc with tags := plc.tags.eraseP (hasId identifier) }

/-- `S7_write(identifier, Value)`. -/
def S7Plc.s7Write (plc : S7Plc σ) (identifier : Int) (value : UInt64) : Int × S7Plc σ :=
  match firstMatch (hasId identifier) (fun tag => ((), tag.s7Write value)) plc.tags with
  | some (_, tags) => (0, { plc with tags := tags })
  | none => (-1, plc)

/-- `S7_read(identifier)`. -/
def S7Plc.s7Read (plc : S7Plc σ) (identifier : Int) : UInt64 :=
  match plc.tags.find? (hasId identifier) with
  | some tag => plc.s7ReadTag tag
  | none => 0

/-- What a send leaves behind: its answer, and the connection, whose tag list is not its concern. -/
def S7Plc.sendEntry (net : Net σ) (plc : S7Plc σ) (tag : S7Tag) : (Int × S7Plc σ) × S7Tag :=
  let (ret, plc, tag) := plc.s7SendTag net tag
  ((ret, plc), tag)

/-- `SendTagById`. -/
def S7Plc.sendTagById (net : Net σ) (plc : S7Plc σ) (identifier : Int) : Int × S7Plc σ :=
  match firstMatch (hasId identifier) (plc.sendEntry net) plc.tags with
  | some ((ret, plc), tags) => (ret, { plc with tags := tags })
  | none => (-1, plc)

/-- The loop of `FlushPendingWrites`, in registration order. -/
def S7Plc.flushTags (net : Net σ) : List S7Tag → S7Plc σ → Int × S7Plc σ × List S7Tag
  | [], plc => (0, plc, [])
  | tag :: rest, plc =>
    if tag.writePending then
      let (ret, plc, tag) := plc.s7SendTag net tag
      let (delivered, plc, rest) := S7Plc.flushTags net rest plc
      (if ret = 0 then delivered + 1 else delivered, plc, tag :: rest)
    else
      let (delivered, plc, rest) := S7Plc.flushTags net rest plc
      (delivered, plc, tag :: rest)

/-- `FlushPendingWrites`. -/
def S7Plc.flushPendingWrites (net : Net σ) (plc : S7Plc σ) : Int × S7Plc σ :=
  let (delivered, plc, tags) := S7Plc.flushTags net plc.tags plc
  (delivered, { plc with tags := tags })

end OipComms.S7
