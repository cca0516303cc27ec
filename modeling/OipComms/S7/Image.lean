import OipComms.S7.Chunks
import OipComms.S7.Coverage

/-!
# The image under three threads

The polling thread resizes a block's image and then fills it chunk by chunk from a snapshot of
`Start` and `Quantity`; the threads that register move `Start` and `Quantity`; the threads that read
look into the image. Each does its part under a lock, and between two parts of one thread any of the
others may come. `Polling` is the connection with the place of the polling thread in its loop, a
`PollEvent` one locked part.

`accesses_in_bounds` says when every copy and every read stays inside the image.
-/

namespace OipComms.S7

open Run Slice

universe u

variable {σ : Type u}

/-- Where the polling thread is: between two blocks, in the chunk loop over a snapshot with `n` bytes
to ask for next, or ended by an exception, and the process with it. -/
inductive Reading
  | idle
  | chunk (area : Area) (start quantity i n : Int)
  | ended
  deriving DecidableEq

/-- The loop goes on until there is nothing to read. -/
def Reading.next (area : Area) (start quantity i n : Int) : Reading :=
  if n = 0 then .idle else .chunk area start quantity i n

/-- A connection, the class-wide tag counter, and its polling thread. -/
structure Polling (σ : Type u) where
  plc : S7Plc σ
  counter : Nat := 0
  reading : Reading := .idle

/-- A locked part of one of the threads, or a change of the connection. A chunk is answered with the
bytes that are copied, each under the address it was asked for, or not in a way that counts. A thread
that reads a tag has looked at `state` before it took the lock. -/
inductive PollEvent
  | register (tagName : CStr)
  | snapshot (area : Area)
  | chunk (reply : Option (Int → UInt8))
  | read (identifier : Int) (state : Nat)
  | negotiated (hi lo : UInt8)
  | dropped

/-- The copy of a chunk into the image. The destination is computed from the block's `Start` of now,
not from that of the snapshot. -/
def S7Plc.copyChunk (plc : S7Plc σ) (area : Area) (i n : Int) (bytes : Int → UInt8) : S7Plc σ :=
  let mem := plc.block area
  plc.setBlock area { mem with
    memImage := overwrite mem.memImage (i - mem.start).toNat
      ((List.range n.toNat).map fun k : Nat => bytes (i + k)) }

def Polling.step (s : Polling σ) : PollEvent → Polling σ
  | .register tagName =>
    { s with
      plc := (s.plc.s7RegisterTag s.counter tagName).2
      counter := nextTagId s.counter }
  | .snapshot area =>
    let mem := s.plc.block area
    if s.reading ≠ .idle ∨ mem.quantity = 0 then s
    -- `resize` of a negative size throws
    else if mem.resized = true ∧ mem.quantity < 0 then { s with reading := .ended }
    else
      { s with
        plc := s.plc.setBlock area mem.snapshot
        reading := .next area mem.start mem.quantity mem.start
          (min (s.plc.pduMaxLength - 25) mem.quantity) }
  | .chunk reply =>
    match s.reading with
    | .chunk area start quantity i n =>
      { s with
        plc := match reply with
          | some bytes => s.plc.copyChunk area i n bytes
          | none => s.plc
        reading := .next area start quantity (int32 (i + n))
          (min (s.plc.pduMaxLength - 25) (int32 (quantity - int32 (i + n) + start))) }
    | _ => s
  | .read _ _ => s
  | .negotiated hi lo =>
    if s.reading = .idle then
      { s with plc := { s.plc with pduMaxLength := pduLength hi lo, state := 2 } }
    else s
  | .dropped => { s with plc := { s.plc with state := 0 } }

/-- The guard of `S7_read(tag)`, with the state the thread has seen. -/
def S7Plc.Readable (plc : S7Plc σ) (state : Nat) (area : Area) (tag : S7Tag) : Prop :=
  state = 2 ∧ ¬ ((plc.block area).resized = true ∨ tag.idx < (plc.block area).start ∨
    int32 ((plc.block area).start + (plc.block area).quantity) < tag.endIdx)

instance (plc : S7Plc σ) (state : Nat) (area : Area) (tag : S7Tag) :
    Decidable (plc.Readable state area tag) :=
  inferInstanceAs (Decidable (_ ∧ ¬ _))

/-- The tag a read looks at, with its area, when it passes the guard. -/
def Polling.reads (s : Polling σ) (identifier : Int) (state : Nat) : Option (Area × S7Tag) :=
  if s.reading = .ended then none
  else
    match s.plc.tags.find? (hasId identifier) with
    | none => none
    | some tag =>
      match tag.mem with
      | none => none
      | some area => if s.plc.Readable state area tag then some (area, tag) else none

/-- A range of addresses lies in a block's image. -/
def S7MemoryBlock.Holds (mem : S7MemoryBlock) (a n : Int) : Prop :=
  0 ≤ n ∧ mem.start ≤ a ∧ a - mem.start + n ≤ mem.memImage.length

instance (mem : S7MemoryBlock) (a n : Int) : Decidable (mem.Holds a n) :=
  inferInstanceAs (Decidable (_ ∧ _ ∧ _))

/-- The next step touches the image inside its bounds only. -/
def Polling.InBounds (s : Polling σ) : PollEvent → Prop
  | .chunk (some _) =>
    match s.reading with
    | .chunk area _ _ i n => (s.plc.block area).Holds i n
    | _ => True
  | .read identifier state =>
    ∀ p ∈ s.reads identifier state, (s.plc.block p.1).Holds p.2.idx p.2.byteQty
  | _ => True

/-- The condition on a step: a chunk that is answered was asked for under a length of 25 or more, and
`Start` has not been lowered since the snapshot by more than what the block has behind the chunk; a
tag that is read has an end an `int` can hold. -/
def Polling.Unmoved (s : Polling σ) : PollEvent → Prop
  | .chunk (some _) =>
    match s.reading with
    | .chunk area start quantity i n =>
      25 ≤ s.plc.pduMaxLength ∧
        start - (s.plc.block area).start ≤ start + quantity - (i + n)
    | _ => True
  | .read identifier state => ∀ p ∈ s.reads identifier state, p.2.idx + p.2.byteQty < 2147483648
  | _ => True

/-! ## What the polling thread and a reading thread run -/

/-- What `S7_read(tag)` makes of a tag: nothing unless it passes the guard, and then the bytes the
image has at its place. -/
theorem s7ReadTag_readable (plc : S7Plc σ) {tag : S7Tag} {area : Area} (hmem : tag.mem = some area) :
    plc.s7ReadTag tag =
      if plc.Readable plc.state area tag then
        let value := fromLittleEndian 0 (slice (plc.block area).memImage
          (tag.idx - (plc.block area).start).toNat tag.byteQty).reverse 0
        if tag.bitIdx ≠ -1 then (value >>> tag.bitIdx.toNat.toUInt64) &&& 1 else value
      else 0 := by
  rw [S7Plc.s7ReadTag, hmem]
  simp only [S7Plc.Readable]
  by_cases hstate : plc.state = 2
  · simp only [hstate, ne_eq, not_true, if_false, true_and]
    split <;> rfl
  · simp only [hstate, ne_eq, not_false_eq_true, if_true, false_and, if_false]

/-- What a socket returns fits the buffer, and the buffer keeps its size. -/
theorem tcpExchange_bounded (net : Net σ) (plc : S7Plc σ) (request : List UInt8)
    (hbuff : plc.buff.length = buffSize) :
    (plc.tcpExchange net request).1 ≤ buffSize ∧
      (plc.tcpExchange net request).2.buff.length = buffSize := by
  have hkeeps : net.Keeps fun plc => plc.buff.length = buffSize :=
    { close := fun h => h
      recv := fun _ h => h
      store := fun hfits h => by rw [length_overwrite (by rw [h]; exact hfits), h] }
  exact tcpExchange_keeps hkeeps request hbuff

/-- `S7_read(memory, start, quantity)` is a chunk event: it copies nothing, or the bytes of a reply,
and beside that it changes what an exchange does. -/
theorem s7ReadChunk_event (net : Net σ) (plc : S7Plc σ) (area : Area) (i n : Int)
    (hbuff : plc.buff.length = buffSize) :
    ∃ plc', plc.Exchanged plc' ∧ plc'.buff.length = buffSize ∧
      (plc.s7ReadChunk net area i n = plc' ∨
        ∃ bytes, plc.s7ReadChunk net area i n = plc'.copyChunk area i n bytes) := by
  have hexchange := tcpExchange_exchanged net plc (readRequest area i n)
  obtain ⟨hret, hkept⟩ := tcpExchange_bounded net plc (readRequest area i n) hbuff
  refine ⟨_, hexchange, hkept, ?_⟩
  rw [S7Plc.s7ReadChunk]
  generalize plc.tcpExchange net (readRequest area i n) = answer at hret hkept
  obtain ⟨ret, plc'⟩ := answer
  simp only at hret hkept ⊢
  by_cases hok : ret = 25 + n ∧ plc'.buff.getD 21 0 = 0xFF
  · right
    have hroom : n.toNat ≤ 975 := by
      rw [buffSize] at hret
      omega
    refine ⟨fun a => plc'.buff.getD (25 + (a - i).toNat) 0, ?_⟩
    rw [if_pos hok, S7Plc.copyChunk]
    congr 3
    apply List.ext_getElem?
    intro k
    by_cases hk : k < n.toNat
    · rw [List.getElem?_take_of_lt hk, List.getElem?_drop, List.getElem?_map,
        List.getElem?_range hk, Option.map_some]
      have hin : 25 + k < plc'.buff.length := by
        rw [hkept, buffSize]
        omega
      rw [show (i + (k : Int) - i).toNat = k by omega, List.getD_eq_getElem?_getD,
        List.getElem?_eq_getElem hin, Option.getD_some]
    · rw [List.getElem?_eq_none (by rw [List.length_take]; omega),
        List.getElem?_eq_none (by rw [List.length_map, List.length_range]; omega)]
  · left
    rw [if_neg hok]

/-! ## The blocks -/

/-- What every registration keeps of a block's range: `int` fields, an end the check allows, and
where the size has wrapped around, an end it would have allowed. -/
structure S7MemoryBlock.Ints (mem : S7MemoryBlock) : Prop where
  start_ge : -2147483648 ≤ mem.start
  start_le : mem.start ≤ 65536
  quantity_ge : -2147483648 ≤ mem.quantity
  quantity_lt : mem.quantity < 2147483648
  end_le : mem.start + mem.quantity ≤ 65536
  wrapped : mem.quantity < 0 → mem.start + mem.quantity + 4294967296 ≤ 65536

/-- A block that an accepted tag extends keeps to 32 bits. -/
theorem S7MemoryBlock.Ints.extend {mem : S7MemoryBlock} (h : mem.Ints) {tag : S7Tag}
    (htag : tag.Accepted) : (mem.extend tag).Ints := by
  have hend := htag.endIdx_cases
  have hle := htag.endIdx_le
  obtain ⟨t1, t2, t3, t4, -⟩ := htag
  obtain ⟨h1, h2, h3, h4, h5, h6⟩ := h
  by_cases hlow : tag.idx < mem.start
  · obtain ⟨hstart, hquantity⟩ := extend_of_low hlow
    by_cases hgrow : int32 (tag.idx + mem.quantity) < tag.endIdx
    · rw [if_pos hgrow] at hquantity
      simp only [int32] at hquantity hgrow
      constructor <;> omega
    · rw [if_neg hgrow] at hquantity
      constructor <;> omega
  · obtain ⟨hstart, hquantity⟩ := extend_of_high hlow
    by_cases hgrow : int32 (mem.start + mem.quantity) < tag.endIdx
    · rw [if_pos hgrow] at hquantity
      simp only [int32] at hquantity hgrow
      constructor <;> omega
    · rw [if_neg hgrow] at hquantity
      constructor <;> omega

/-- A registration that leaves the block unmarked leaves it as it was. -/
theorem extend_unmarked {mem : S7MemoryBlock} {tag : S7Tag} (h : (mem.extend tag).resized = false) :
    mem.extend tag = mem := by
  revert h
  unfold S7MemoryBlock.extend
  by_cases hlow : tag.idx < mem.start
  · simp only [hlow, if_true]
    split <;> exact fun h => nomatch h
  · simp only [hlow, if_false]
    split
    · exact fun h => nomatch h
    · exact fun _ => rfl

/-- The image is not resized yet. -/
theorem extend_memImage (mem : S7MemoryBlock) (tag : S7Tag) :
    (mem.extend tag).memImage = mem.memImage := by
  unfold S7MemoryBlock.extend
  by_cases hlow : tag.idx < mem.start
  · simp only [hlow, if_true]
    split <;> rfl
  · simp only [hlow, if_false]
    split <;> rfl

/-- The image of a block that is not marked has the size the block has. -/
def S7MemoryBlock.Fitted (mem : S7MemoryBlock) : Prop :=
  mem.resized = false → 0 ≤ mem.quantity ∧ mem.memImage.length = mem.quantity

/-- An image that fits its block does so until it is to be resized. -/
theorem S7MemoryBlock.Fitted.extend {mem : S7MemoryBlock} (h : mem.Fitted) (tag : S7Tag) :
    (mem.extend tag).Fitted := by
  intro hunmarked
  have hsame := extend_unmarked hunmarked
  rw [hsame] at hunmarked ⊢
  exact h hunmarked

/-- A resized image has the size asked for. -/
theorem length_resize (image : List UInt8) (n : Nat) : (resize image n).length = n := by
  rw [resize, List.length_append, List.length_take, List.length_replicate]
  omega

/-- A block with the bounds of another keeps to 32 bits as that one does. -/
theorem S7MemoryBlock.Ints.of_eq {mem mem' : S7MemoryBlock} (h : mem.Ints)
    (hstart : mem'.start = mem.start) (hquantity : mem'.quantity = mem.quantity) : mem'.Ints := by
  obtain ⟨h1, h2, h3, h4, h5, h6⟩ := h
  constructor <;> omega

/-- After a snapshot that does not throw, the image has the size of the block. -/
theorem S7MemoryBlock.Fitted.snapshot {mem : S7MemoryBlock} (h : mem.Fitted)
    (hok : ¬ (mem.resized = true ∧ mem.quantity < 0)) :
    0 ≤ mem.quantity ∧ mem.snapshot.memImage.length = mem.quantity := by
  rw [S7MemoryBlock.snapshot]
  by_cases hmarked : mem.resized = true
  · have hpos : 0 ≤ mem.quantity := Int.not_lt.mp fun hneg => hok ⟨hmarked, hneg⟩
    rw [if_pos hmarked, length_resize]
    exact ⟨hpos, Int.toNat_of_nonneg hpos⟩
  · rw [if_neg hmarked]
    exact h (Bool.not_eq_true _ |>.mp hmarked)

/-- A tag leaves the length of a PDU. -/
@[simp] theorem S7Plc.addTag_pduMaxLength (plc : S7Plc σ) (area : Area) (tag : S7Tag) :
    (plc.addTag area tag).pduMaxLength = plc.pduMaxLength := by
  simp only [S7Plc.addTag, S7Plc.setBlock_pduMaxLength]

/-- What the polling thread's place in the loop says. Under a length below 25 the loop counts
backwards. -/
def Polling.Placed (s : Polling σ) : Prop :=
  match s.reading with
  | .chunk area start quantity i n =>
    (s.plc.block area).start ≤ start ∧ (s.plc.block area).memImage.length = quantity ∧
    start + quantity ≤ 65536 ∧ -2147483648 ≤ start ∧ quantity < 2147483648 ∧
    (25 ≤ s.plc.pduMaxLength → 0 < n ∧ start ≤ i ∧ i + n ≤ start + quantity) ∧
    (s.plc.pduMaxLength < 25 → n < 0)
  | _ => True

/-- What every step under the condition keeps. -/
structure Polling.Sound (s : Polling σ) : Prop where
  ints : ∀ area, (s.plc.block area).Ints
  fitted : ∀ area, (s.plc.block area).Fitted
  accepted : ∀ tag ∈ s.plc.tags, tag.Accepted
  placed : s.Placed

/-- A chunk that fits the image is copied without changing its size. -/
theorem length_copy {mem : S7MemoryBlock} {i n : Int} (h : mem.Holds i n) (bytes : Int → UInt8) :
    (overwrite mem.memImage (i - mem.start).toNat
      ((List.range n.toNat).map fun k : Nat => bytes (i + k))).length = mem.memImage.length := by
  obtain ⟨hn, hi, hfits⟩ := h
  apply length_overwrite
  rw [List.length_map, List.length_range]
  omega

/-- The place after a chunk, or at the start of a loop over a snapshot. -/
theorem placed_next {s : Polling σ} {area : Area} {start quantity i n : Int}
    (hreading : s.reading = .next area start quantity i n)
    (hstart : (s.plc.block area).start ≤ start)
    (hlen : (s.plc.block area).memImage.length = quantity) (hend : start + quantity ≤ 65536)
    (hge : -2147483648 ≤ start) (hlt : quantity < 2147483648)
    (hin : 25 ≤ s.plc.pduMaxLength → 0 ≤ n ∧ start ≤ i ∧ i + n ≤ start + quantity)
    (hback : s.plc.pduMaxLength < 25 → n < 0) : s.Placed := by
  rw [Polling.Placed, hreading, Reading.next]
  by_cases hn : n = 0
  · rw [if_pos hn]
    trivial
  · rw [if_neg hn]
    refine ⟨hstart, hlen, hend, hge, hlt, fun hpdu => ?_, hback⟩
    have hmore := hin hpdu
    omega

/-- What a read needs: the poller not at its end, the tag, its area, and the value in it. -/
theorem reads_cases {s : Polling σ} {identifier : Int} {state : Nat} {area : Area} {tag : S7Tag}
    (h : s.reads identifier state = some (area, tag)) :
    s.reading ≠ .ended ∧ s.plc.tags.find? (hasId identifier) = some tag ∧ tag.mem = some area ∧
      s.plc.Readable state area tag := by
  rw [Polling.reads] at h
  by_cases hended : s.reading = .ended
  · rw [if_pos hended] at h
    cases h
  · rw [if_neg hended] at h
    cases hfind : s.plc.tags.find? (hasId identifier) with
    | none =>
      rw [hfind] at h
      cases h
    | some t =>
      rw [hfind] at h
      simp only at h
      cases hmem : t.mem with
      | none =>
        rw [hmem] at h
        cases h
      | some b =>
        rw [hmem] at h
        simp only at h
        by_cases hreadable : s.plc.Readable state b t
        · rw [if_pos hreadable] at h
          obtain ⟨rfl, rfl⟩ := Prod.mk.inj (Option.some.inj h)
          exact ⟨hended, rfl, hmem, hreadable⟩
        · rw [if_neg hreadable] at h
          cases h

/-- A tag that passes the guard lies in the image, unless its end has overflowed. -/
theorem readable_holds {s : Polling σ} (hs : s.Sound) {identifier : Int} {state : Nat} {area : Area}
    {tag : S7Tag} (h : s.reads identifier state = some (area, tag)) :
    tag.idx + tag.byteQty < 2147483648 ↔ (s.plc.block area).Holds tag.idx tag.byteQty := by
  obtain ⟨-, hfind, -, -, hguard⟩ := reads_cases h
  have htag := hs.accepted tag (List.mem_of_find?_eq_some hfind)
  have hend := htag.endIdx_cases
  obtain ⟨i1, i2, i3, i4, i5, i6⟩ := hs.ints area
  have hfitted := hs.fitted area
  rw [not_or, not_or, Bool.not_eq_true] at hguard
  obtain ⟨hunmarked, hlow, hhigh⟩ := hguard
  obtain ⟨hpos, hlen⟩ := hfitted hunmarked
  rw [int32_eq_self (by omega) (by omega)] at hhigh
  simp only [S7MemoryBlock.Holds]
  omega

/-- Under the invariant the condition is what it is for: the exact one. -/
theorem unmoved_iff_inBounds {s : Polling σ} (hs : s.Sound) (event : PollEvent) :
    s.Unmoved event ↔ s.InBounds event := by
  cases event with
  | chunk reply =>
    cases reply with
    | none => exact Iff.rfl
    | some bytes =>
      have hplaced := hs.placed
      revert hplaced
      rw [Polling.Placed, Polling.Unmoved, Polling.InBounds]
      cases s.reading with
      | idle => exact fun _ => Iff.rfl
      | ended => exact fun _ => Iff.rfl
      | chunk area start quantity i n =>
        rintro ⟨hstart, hlen, -, -, -, hin, hback⟩
        simp only [S7MemoryBlock.Holds]
        omega
  | read identifier state => exact forall₂_congr fun p hp => readable_holds hs hp
  | _ => exact Iff.rfl

/-- A registration keeps the image sound. -/
theorem sound_register {s : Polling σ} (hs : s.Sound) (tagName : CStr) :
    (s.step (.register tagName)).Sound := by
  rcases s7RegisterTag_accepted s.plc s.counter tagName with ⟨-, hplc⟩ | ⟨area, tag, hacc, hplc⟩
  · have hstep : s.step (.register tagName) = { s with counter := nextTagId s.counter } := by
      rw [Polling.step, hplc]
    rw [hstep]
    exact ⟨hs.ints, hs.fitted, hs.accepted, hs.placed⟩
  · have hstep : s.step (.register tagName) =
        { s with plc := s.plc.addTag area tag, counter := nextTagId s.counter } := by
      rw [Polling.step, hplc]
    obtain ⟨haccepted, -⟩ := acceptedTag_accepted hacc
    rw [hstep]
    refine ⟨fun b => ?_, fun b => ?_, fun t ht => ?_, ?_⟩
    · simp only [S7Plc.addTag_block]
      split
      · exact (hs.ints area).extend haccepted
      · exact hs.ints b
    · simp only [S7Plc.addTag_block]
      split
      · exact (hs.fitted area).extend tag
      · exact hs.fitted b
    · simp only [S7Plc.addTag_tags] at ht
      rcases List.mem_append.mp ht with ht | ht
      · exact hs.accepted t ht
      · rwa [List.mem_singleton.mp ht]
    · have hplaced := hs.placed
      revert hplaced
      rw [Polling.Placed, Polling.Placed]
      simp only
      cases s.reading with
      | idle => exact fun h => h
      | ended => exact fun h => h
      | chunk b start quantity i n =>
        simp only [S7Plc.addTag_block, S7Plc.addTag_pduMaxLength]
        by_cases hb : b = area
        · subst hb
          rintro ⟨hstart, hlen, hrest⟩
          have hlower := extend_start (s.plc.block b) tag
          rw [if_pos rfl]
          refine ⟨by omega, ?_, hrest⟩
          rw [extend_memImage]
          exact hlen
        · rw [if_neg hb]
          exact fun h => h

/-- The bounds a loop takes are sound. -/
theorem sound_snapshot {s : Polling σ} (hs : s.Sound) (area : Area) :
    (s.step (.snapshot area)).Sound := by
  rw [Polling.step]
  by_cases hskip : s.reading ≠ .idle ∨ (s.plc.block area).quantity = 0
  · rw [if_pos hskip]
    exact hs
  · rw [if_neg hskip]
    by_cases hthrows : (s.plc.block area).resized = true ∧ (s.plc.block area).quantity < 0
    · rw [if_pos hthrows]
      exact ⟨hs.ints, hs.fitted, hs.accepted, trivial⟩
    · rw [if_neg hthrows]
      obtain ⟨hpos, hlen⟩ := (hs.fitted area).snapshot hthrows
      have hints := hs.ints area
      refine ⟨fun b => ?_, fun b => ?_, ?_, ?_⟩
      · simp only [S7Plc.block_setBlock]
        split
        · exact hints.of_eq (S7MemoryBlock.snapshot_start _) (S7MemoryBlock.snapshot_quantity _)
        · exact hs.ints b
      · simp only [S7Plc.block_setBlock]
        split
        · exact fun _ => ⟨by rw [S7MemoryBlock.snapshot_quantity]; exact hpos, by
            rw [S7MemoryBlock.snapshot_quantity]; exact hlen⟩
        · exact hs.fitted b
      · simp only [S7Plc.setBlock_tags]
        exact hs.accepted
      · obtain ⟨h1, h2, h3, h4, h5, -⟩ := hints
        apply placed_next rfl
        · simp only [S7Plc.block_setBlock, if_true, S7MemoryBlock.snapshot_start]
          exact Int.le_refl _
        · simp only [S7Plc.block_setBlock, if_true]
          exact hlen
        · exact h5
        · exact h1
        · exact h4
        · simp only [S7Plc.setBlock_pduMaxLength]
          omega
        · simp only [S7Plc.setBlock_pduMaxLength]
          omega

/-- The copy of a chunk changes the bytes of one image. -/
theorem copyChunk_block (plc : S7Plc σ) (area b : Area) (i n : Int) (bytes : Int → UInt8) :
    ((plc.copyChunk area i n bytes).block b).start = (plc.block b).start ∧
      ((plc.copyChunk area i n bytes).block b).quantity = (plc.block b).quantity ∧
      ((plc.copyChunk area i n bytes).block b).resized = (plc.block b).resized ∧
      ((plc.block area).Holds i n → ((plc.copyChunk area i n bytes).block b).memImage.length =
        (plc.block b).memImage.length) := by
  simp only [S7Plc.copyChunk, S7Plc.block_setBlock]
  by_cases hb : b = area
  · subst hb
    simp only [if_true, true_and]
    exact fun hholds => length_copy hholds bytes
  · simp only [hb, if_false, true_and, implies_true]

/-- A chunk of a block that has not moved keeps the image sound. -/
theorem sound_chunk {s : Polling σ} (hs : s.Sound) (reply : Option (Int → UInt8))
    (hunmoved : s.Unmoved (.chunk reply)) : (s.step (.chunk reply)).Sound := by
  have hbounds := (unmoved_iff_inBounds hs (.chunk reply)).mp hunmoved
  have hplaced := hs.placed
  revert hbounds hplaced
  rw [Polling.Placed]
  cases hreading : s.reading with
  | idle =>
    intro _ _
    rw [Polling.step, hreading]
    exact hs
  | ended =>
    intro _ _
    rw [Polling.step, hreading]
    exact hs
  | chunk area start quantity i n =>
    rintro hbounds ⟨hstart, hlen, hend, hge, hlt, hin, hback⟩
    rw [Polling.step, hreading]
    simp only
    generalize hplc : (match reply with
      | some bytes => s.plc.copyChunk area i n bytes
      | none => s.plc) = plc
    have hkept : plc.tags = s.plc.tags ∧ plc.pduMaxLength = s.plc.pduMaxLength ∧
        ∀ b, (plc.block b).start = (s.plc.block b).start ∧
          (plc.block b).quantity = (s.plc.block b).quantity ∧
          (plc.block b).resized = (s.plc.block b).resized ∧
          (plc.block b).memImage.length = (s.plc.block b).memImage.length := by
      cases reply with
      | none =>
        subst hplc
        exact ⟨rfl, rfl, fun b => ⟨rfl, rfl, rfl, rfl⟩⟩
      | some bytes =>
        simp only [Polling.InBounds, hreading] at hbounds
        subst hplc
        refine ⟨S7Plc.setBlock_tags _ _ _, S7Plc.setBlock_pduMaxLength _ _ _, fun b => ?_⟩
        obtain ⟨hs', hq', hr', hl'⟩ := copyChunk_block s.plc area b i n bytes
        exact ⟨hs', hq', hr', hl' hbounds⟩
    obtain ⟨htags, hpdu, hblocks⟩ := hkept
    refine ⟨fun b => ?_, fun b => ?_, by rw [htags]; exact hs.accepted, ?_⟩
    · obtain ⟨hs', hq', -, -⟩ := hblocks b
      exact (hs.ints b).of_eq hs' hq'
    · obtain ⟨-, hq', hr', hl'⟩ := hblocks b
      intro hunmarked
      rw [hq', hl']
      exact hs.fitted b (hr' ▸ hunmarked)
    · obtain ⟨hs', -, -, hl'⟩ := hblocks area
      apply placed_next rfl
      · rw [hs']
        exact hstart
      · rw [hl']
        exact hlen
      · exact hend
      · exact hge
      · exact hlt
      · rw [hpdu]
        intro hroom
        obtain ⟨hpos, hlo, hhi⟩ := hin hroom
        rw [int32_eq_self (show -2147483648 ≤ i + n by omega) (by omega),
          int32_eq_self (by omega) (by omega)]
        omega
      · rw [hpdu]
        omega

/-- The condition keeps the invariant. -/
theorem sound_step {s : Polling σ} (hs : s.Sound) {event : PollEvent} (hunmoved : s.Unmoved event) :
    (s.step event).Sound := by
  cases event with
  | register tagName => exact sound_register hs tagName
  | snapshot area => exact sound_snapshot hs area
  | chunk reply => exact sound_chunk hs reply hunmoved
  | read identifier state => exact hs
  | negotiated hi lo =>
    by_cases hidle : s.reading = .idle
    · rw [Polling.step, if_pos hidle]
      refine ⟨hs.ints, hs.fitted, hs.accepted, ?_⟩
      rw [Polling.Placed, hidle]
      trivial
    · rw [Polling.step, if_neg hidle]
      exact hs
  | dropped => exact ⟨hs.ints, hs.fitted, hs.accepted, hs.placed⟩

/-- A connection nothing was ever registered on, and its polling thread. -/
def Polling.start (net : Net σ) (idCounter counter : Nat) (host : CStr) : Polling σ :=
  { plc := S7Plc.new net idCounter host, counter := counter }

/-- The image of a new connection is sound. -/
theorem sound_start (net : Net σ) (idCounter counter : Nat) (host : CStr) :
    (Polling.start net idCounter counter host).Sound := by
  have hfresh : ∀ area, ((Polling.start net idCounter counter host).plc.block area) = {} := by
    intro area
    cases area <;> rfl
  refine ⟨fun area => ?_, fun area => ?_, fun tag htag => (nomatch htag), trivial⟩
  · rw [hfresh]
    exact ⟨by decide, by decide, by decide, by decide, by decide, by decide⟩
  · rw [hfresh]
    exact fun _ => ⟨by decide, rfl⟩

/-- Every copy and every read of a run stays inside the image, if and only if each chunk that is
answered was asked for under a length of 25 or more and `Start` has not been lowered since the
snapshot by more than what the block has behind the chunk, and each tag that is read has an end an
`int` can hold. -/
theorem accesses_in_bounds (net : Net σ) (idCounter counter : Nat) (host : CStr)
    (events : List PollEvent) :
    Meets Polling.step Polling.InBounds (Polling.start net idCounter counter host) events ↔
      Meets Polling.step Polling.Unmoved (Polling.start net idCounter counter host) events := by
  have hstart := sound_start net idCounter counter host
  exact (meets_iff_meets_while Polling.step (J := Polling.Sound)
    (fun _ _ hs hunmoved => sound_step hs hunmoved)
    (fun _ event hs => unmoved_iff_inBounds hs event) hstart events).symm

/-- A connection that has a snapshot of one byte at 10 on the way, when a tag at 5 is registered. -/
def loweredBelow : Polling Stream :=
  run Polling.step (Polling.start Stream.net 0 0 [])
    [.register "MB10".toList, .negotiated 3 192, .snapshot .M, .register "MB5".toList]

/-- The answer to the chunk is then copied behind the end of the image. -/
theorem chunk_out_of_bounds :
    ¬ Meets Polling.step Polling.InBounds (Polling.start Stream.net 0 0 [])
      [.register "MB10".toList, .negotiated 3 192, .snapshot .M, .register "MB5".toList,
        .chunk (some fun _ => 0x2A)] := by
  intro h
  have hcopy : loweredBelow.InBounds (.chunk (some fun _ => 0x2A)) := h.2.2.2.2.1
  have hreading : loweredBelow.reading = .chunk .M 10 1 10 1 := by decide +kernel
  have hblock : loweredBelow.plc.block .M =
      { start := 5, quantity := 1, resized := true, memImage := [0] } := by decide +kernel
  rw [Polling.InBounds, hreading] at hcopy
  simp only [hblock] at hcopy
  exact absurd hcopy (by decide)

end OipComms.S7
