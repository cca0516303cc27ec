import OipComms.S7.Image

/-!
# The bytes a read returns

A read looks a tag up in the image by its distance to `Start`. `Start` moves down when a lower tag is
registered, and the bytes that are already in the image stay where they are, so that each of them is
found under another address from then on, and `Resized`, which keeps reads away, is cleared before
the block has been read again. `reads_latest` says that a history in which no block is lowered that
has received anything returns the byte last received for each address.
-/

namespace OipComms.S7

open Run Slice

universe u

variable {σ : Type u}

/-- The byte last received from the controller for each address. -/
abbrev Received := Area → Int → Option UInt8

/-- What is received in a step: the bytes of a chunk that is answered. -/
def Polling.note (s : Polling σ) (event : PollEvent) (received : Received) : Received :=
  match event, s.reading with
  | .chunk (some bytes), .chunk area _ _ i n => fun b a =>
    if b = area ∧ i ≤ a ∧ a < i + n then some (bytes a) else received b a
  | _, _ => received

/-- The bytes a read uses are those last received for their addresses, 0 where none was. -/
def Latest (s : Polling σ × Received) : PollEvent → Prop
  | .read identifier state => ∀ p ∈ s.1.reads identifier state, ∀ k < p.2.byteQty,
    (slice (s.1.plc.block p.1).memImage (p.2.idx - (s.1.plc.block p.1).start).toNat p.2.byteQty)[k]? =
      some ((s.2 p.1 (p.2.idx + k)).getD 0)
  | _ => True

/-- The condition on a step: beside what keeps it in bounds, a registration lowers a block's `Start`
only while nothing has been received for the block. -/
def Settled (s : Polling σ × Received) (event : PollEvent) : Prop :=
  s.1.Unmoved event ∧
    match event with
    | .register tagName => ∀ p ∈ acceptedTag s.1.counter tagName,
      p.2.idx < (s.1.plc.block p.1).start → ∀ a, s.2 p.1 a = none
    | _ => True

/-- The image of a block shows what was received for its addresses. -/
structure Shows (mem : S7MemoryBlock) (received : Int → Option UInt8) : Prop where
  image : ∀ k < mem.memImage.length, mem.memImage[k]? = some ((received (mem.start + k)).getD 0)
  inside : ∀ a, received a ≠ none → mem.start ≤ a ∧ a < mem.start + mem.memImage.length
  grows : (mem.memImage.length : Int) ≤ mem.quantity ∨ mem.quantity < 0

/-- What every step under the condition keeps. -/
structure Tracked (s : Polling σ × Received) : Prop where
  sound : s.1.Sound
  shows : ∀ area, Shows (s.1.plc.block area) (s.2 area)

/-- A registration lets the size of a block grow, or wraps it around for good. -/
theorem extend_grows {mem : S7MemoryBlock} (hmem : mem.Ints) {tag : S7Tag} (htag : tag.Accepted) :
    (mem.extend tag).quantity < 0 ∨ 0 ≤ mem.quantity ∧ mem.quantity ≤ (mem.extend tag).quantity := by
  have hend := htag.endIdx_cases
  have hle := htag.endIdx_le
  obtain ⟨t1, t2, t3, t4, -⟩ := htag
  obtain ⟨h1, h2, h3, h4, h5, h6⟩ := hmem
  by_cases hlow : tag.idx < mem.start
  · obtain ⟨hstart, hquantity⟩ := extend_of_low hlow
    by_cases hgrow : int32 (tag.idx + mem.quantity) < tag.endIdx
    · rw [if_pos hgrow] at hquantity
      simp only [int32] at hquantity hgrow
      omega
    · rw [if_neg hgrow] at hquantity
      omega
  · obtain ⟨hstart, hquantity⟩ := extend_of_high hlow
    by_cases hgrow : int32 (mem.start + mem.quantity) < tag.endIdx
    · rw [if_pos hgrow] at hquantity
      simp only [int32] at hquantity hgrow
      omega
    · rw [if_neg hgrow] at hquantity
      omega

/-- A block whose start is not lowered after data shows what it did. -/
theorem Shows.extend {mem : S7MemoryBlock} {received : Int → Option UInt8} (h : Shows mem received)
    (hmem : mem.Ints) {tag : S7Tag} (htag : tag.Accepted)
    (hlow : tag.idx < mem.start → ∀ a, received a = none) : Shows (mem.extend tag) received := by
  have hgrows : ((mem.extend tag).memImage.length : Int) ≤ (mem.extend tag).quantity ∨
      (mem.extend tag).quantity < 0 := by
    have hsize := extend_grows hmem htag
    rw [extend_memImage]
    rcases h.grows with hfits | hwrapped <;> omega
  by_cases hlower : tag.idx < mem.start
  · have hnone := hlow hlower
    refine ⟨fun k hk => ?_, fun a ha => absurd (hnone a) ha, hgrows⟩
    rw [extend_memImage] at hk ⊢
    rw [h.image k hk, hnone, hnone]
  · have hstart := (extend_of_high hlower).1
    refine ⟨?_, ?_, hgrows⟩
    · rw [extend_memImage, hstart]
      exact h.image
    · rw [extend_memImage, hstart]
      exact h.inside

/-- A resized image keeps its bytes, and has zeros behind them. -/
theorem getElem?_resize {image : List UInt8} {n k : Nat} (hk : k < n) :
    (resize image n)[k]? = if k < image.length then image[k]? else some 0 := by
  rw [resize]
  by_cases hin : k < image.length
  · rw [if_pos hin, List.getElem?_append_left (by rw [List.length_take]; omega),
      List.getElem?_take_of_lt hk]
  · have hpast : n - image.length + image.length = n := by omega
    rw [if_neg hin, List.getElem?_append_right (by rw [List.length_take]; omega),
      List.getElem?_replicate, List.length_take, if_pos (by omega)]

/-- The copy of a block shows what it does. -/
theorem Shows.snapshot {mem : S7MemoryBlock} {received : Int → Option UInt8} (h : Shows mem received)
    (hfitted : mem.Fitted) (hok : ¬ (mem.resized = true ∧ mem.quantity < 0)) :
    Shows mem.snapshot received := by
  obtain ⟨hpos, hlen⟩ := hfitted.snapshot hok
  have hgrows : ((mem.snapshot.memImage.length : Nat) : Int) ≤ mem.snapshot.quantity := by
    rw [hlen, S7MemoryBlock.snapshot_quantity]
  refine ⟨?_, ?_, .inl hgrows⟩
  · intro k hk
    rw [S7MemoryBlock.snapshot_start]
    by_cases hmarked : mem.resized = true
    · simp only [S7MemoryBlock.snapshot, if_pos hmarked] at hk ⊢
      rw [length_resize] at hk
      rw [getElem?_resize hk]
      by_cases hin : k < mem.memImage.length
      · rw [if_pos hin]
        exact h.image k hin
      · -- what is new was outside the image, and nothing outside was received
        have hnone : received (mem.start + k) = none := by
          by_contra hsome
          have hinside := h.inside _ hsome
          omega
        rw [if_neg hin, hnone]
        rfl
    · simp only [S7MemoryBlock.snapshot, if_neg hmarked] at hk ⊢
      exact h.image k hk
  · intro a ha
    have hinside := h.inside a ha
    rw [S7MemoryBlock.snapshot_start, hlen]
    rcases h.grows with hfits | hneg <;> omega

/-- The copy of a chunk that stays in bounds puts its bytes under their addresses. -/
theorem Shows.copy {plc : S7Plc σ} {area : Area} {received : Int → Option UInt8}
    (h : Shows (plc.block area) received) {i n : Int} (hholds : (plc.block area).Holds i n)
    (bytes : Int → UInt8) :
    Shows ((plc.copyChunk area i n bytes).block area)
      (fun a => if i ≤ a ∧ a < i + n then some (bytes a) else received a) := by
  have hlength := length_copy hholds bytes
  obtain ⟨hn, hi, hfits⟩ := id hholds
  simp only [S7Plc.copyChunk, S7Plc.block_setBlock, if_true]
  refine ⟨?_, ?_, ?_⟩
  · simp only [hlength]
    intro k hk
    rw [getElem?_overwrite (by omega), List.length_map, List.length_range]
    by_cases hin : (i - (plc.block area).start).toNat ≤ k ∧
        k < (i - (plc.block area).start).toNat + n.toNat
    · rw [if_pos hin, if_pos (by omega), List.getElem?_map, List.getElem?_range (by omega),
        Option.map_some]
      congr 2
      omega
    · rw [if_neg hin, if_neg (by omega)]
      exact h.image k hk
  · simp only [hlength]
    intro a ha
    by_cases hin : i ≤ a ∧ a < i + n
    · omega
    · rw [if_neg hin] at ha
      exact h.inside a ha
  · simp only [hlength]
    exact h.grows

/-! ## Runs -/

/-- Every step under the condition keeps what is tracked. -/
theorem tracked_step {x : Polling σ × Received} (hx : Tracked x) {event : PollEvent}
    (hsettled : Settled x event) : Tracked (watch Polling.step Polling.note x event) := by
  obtain ⟨s, received⟩ := x
  obtain ⟨hs, hshows⟩ := hx
  obtain ⟨hunmoved, hlow⟩ := hsettled
  refine ⟨sound_step hs hunmoved, ?_⟩
  simp only [watch] at hs hshows hunmoved hlow ⊢
  cases event with
  | register tagName =>
    rcases s7RegisterTag_accepted s.plc s.counter tagName with ⟨-, hplc⟩ | ⟨area, tag, hacc, hplc⟩
    · rw [Polling.step, hplc]
      exact hshows
    · obtain ⟨haccepted, -⟩ := acceptedTag_accepted hacc
      rw [Polling.step, hplc]
      intro b
      simp only [S7Plc.addTag_block]
      by_cases hb : b = area
      · subst hb
        rw [if_pos rfl]
        exact (hshows b).extend (hs.ints b) haccepted (hlow (b, tag) hacc)
      · rw [if_neg hb]
        exact hshows b
  | snapshot area =>
    rw [Polling.step]
    by_cases hskip : s.reading ≠ .idle ∨ (s.plc.block area).quantity = 0
    · rw [if_pos hskip]
      exact hshows
    · rw [if_neg hskip]
      by_cases hthrows : (s.plc.block area).resized = true ∧ (s.plc.block area).quantity < 0
      · rw [if_pos hthrows]
        exact hshows
      · rw [if_neg hthrows]
        intro b
        simp only [S7Plc.block_setBlock]
        by_cases hb : b = area
        · subst hb
          rw [if_pos rfl]
          exact (hshows b).snapshot (hs.fitted b) hthrows
        · rw [if_neg hb]
          exact hshows b
  | chunk reply =>
    have hbounds := (unmoved_iff_inBounds hs (.chunk reply)).mp hunmoved
    cases reply with
    | none =>
      rw [Polling.step]
      cases s.reading <;> exact hshows
    | some bytes =>
      cases hreading : s.reading with
      | idle =>
        simp only [Polling.step, Polling.note, hreading]
        exact hshows
      | ended =>
        simp only [Polling.step, Polling.note, hreading]
        exact hshows
      | chunk area start quantity i n =>
        simp only [Polling.InBounds, hreading] at hbounds
        simp only [Polling.step, Polling.note, hreading]
        intro b
        by_cases hb : b = area
        · subst hb
          simp only [true_and]
          exact (hshows b).copy hbounds bytes
        · simp only [S7Plc.copyChunk, S7Plc.block_setBlock, hb, if_false, false_and]
          exact hshows b
  | read identifier state => exact hshows
  | negotiated hi lo =>
    rw [Polling.step]
    split <;> exact hshows
  | dropped => exact hshows

/-- A read on a settled image answers with the latest bytes. -/
theorem latest_of_tracked {x : Polling σ × Received} (hx : Tracked x) {event : PollEvent}
    (hsettled : Settled x event) : Latest x event := by
  obtain ⟨s, received⟩ := x
  cases event with
  | read identifier state =>
    rintro ⟨area, tag⟩ hp k hk
    obtain ⟨hn, hlow, hfits⟩ := (readable_holds hx.sound hp).mp (hsettled.1 (area, tag) hp)
    simp only at hk hlow hfits ⊢
    have hplace : (s.plc.block area).start +
        (((tag.idx - (s.plc.block area).start).toNat + k : Nat) : Int) = tag.idx + k := by omega
    rw [getElem?_slice, if_pos hk, (hx.shows area).image _ (by simp only; omega), hplace]
  | _ => trivial

/-- Every read of a history returns the bytes last received for the tag's addresses, 0 where none
was, if no registration lowers the `Start` of a block for which something has been received, and the
image is touched inside its bounds only. -/
theorem reads_latest (net : Net σ) (idCounter counter : Nat) (host : CStr) (events : List PollEvent)
    (h : Meets (watch Polling.step Polling.note) Settled
      (Polling.start net idCounter counter host, fun _ _ => none) events) :
    Meets (watch Polling.step Polling.note) Latest
      (Polling.start net idCounter counter host, fun _ _ => none) events := by
  have hstart : Tracked (Polling.start net idCounter counter host, fun _ _ => none) := by
    refine ⟨sound_start net idCounter counter host, fun area => ?_⟩
    have hfresh : (Polling.start net idCounter counter host).plc.block area = {} := by
      cases area <;> rfl
    rw [hfresh]
    exact ⟨fun k hk => absurd hk (Nat.not_lt_zero k), fun a ha => absurd rfl ha, .inl (by decide)⟩
  exact Meets.mono _ (fun _ _ hx hsettled => tracked_step hx hsettled)
    (fun _ _ hx hsettled => latest_of_tracked hx hsettled) hstart h

/-- A connection nothing was ever registered on, and nothing received. -/
def Polling.fresh : Polling Stream × Received := (Polling.start Stream.net 0 0 [], fun _ _ => none)

/-- One byte of the flags is polled. -/
def polledByte : List PollEvent :=
  [.register "MB10".toList, .negotiated 3 192, .snapshot .M, .chunk (some fun _ => 0x2A)]

/-- One byte that is polled settles. -/
theorem polledByte_settled :
    Meets (watch Polling.step Polling.note) Settled Polling.fresh
      (polledByte ++ [.read 0 2]) := by
  have hreading : (run (watch Polling.step Polling.note) Polling.fresh
      (polledByte.take 3)).1.reading = .chunk .M 10 1 10 1 := by decide +kernel
  have hroom : 25 ≤ (run (watch Polling.step Polling.note) Polling.fresh
      (polledByte.take 3)).1.plc.pduMaxLength ∧
      10 - ((run (watch Polling.step Polling.note) Polling.fresh
        (polledByte.take 3)).1.plc.block .M).start ≤ 10 + 1 - (10 + 1) := by decide +kernel
  have hchunk : Polling.Unmoved (run (watch Polling.step Polling.note) Polling.fresh
      (polledByte.take 3)).1 (.chunk (some fun _ => 0x2A)) := by
    rw [Polling.Unmoved, hreading]
    exact hroom
  have hfound : (run (watch Polling.step Polling.note) Polling.fresh polledByte).1.reads 0 2 =
      some (.M, { identifier := 0, idx := 10, byteQty := 1, mem := some .M }) := by decide +kernel
  have hread : Polling.Unmoved (run (watch Polling.step Polling.note) Polling.fresh polledByte).1
      (.read 0 2) := by
    intro p hp
    obtain rfl := Option.some.inj (hfound.symm.trans hp)
    decide
  exact ⟨⟨trivial, fun _ _ _ _ => rfl⟩, ⟨trivial, trivial⟩, ⟨trivial, trivial⟩, ⟨hchunk, trivial⟩,
    ⟨hread, trivial⟩, trivial⟩

/-- One byte that is polled and read. -/
theorem reads_latest_byte :
    Meets (watch Polling.step Polling.note) Latest Polling.fresh (polledByte ++ [.read 0 2]) :=
  reads_latest Stream.net 0 0 [] (polledByte ++ [PollEvent.read 0 2]) polledByte_settled

/-- When a tag at 5 is registered then and the block is taken up again, a read of the tag returns the
byte received for 10, while nothing has been received for 5. -/
theorem read_of_another_address :
    ¬ Meets (watch Polling.step Polling.note) Latest Polling.fresh
      (polledByte ++ [.register "MB5".toList, .snapshot .M, .read 1 2]) := by
  intro h
  have hread := h.2.2.2.2.2.2.1
  have hfound : (run (watch Polling.step Polling.note) Polling.fresh
      (polledByte ++ [.register "MB5".toList, .snapshot .M])).1.reads 1 2 =
        some (.M, { identifier := 1, idx := 5, byteQty := 1, mem := some .M }) := by decide +kernel
  have hbyte := hread _ hfound 0 (by decide)
  have hnothing : (run (watch Polling.step Polling.note) Polling.fresh
      (polledByte ++ [.register "MB5".toList, .snapshot .M])).2 .M (5 + (0 : Nat)) = none := by
    decide +kernel
  have himage : (slice ((run (watch Polling.step Polling.note) Polling.fresh
      (polledByte ++ [.register "MB5".toList, .snapshot .M])).1.plc.block .M).memImage
        (5 - ((run (watch Polling.step Polling.note) Polling.fresh
          (polledByte ++ [.register "MB5".toList, .snapshot .M])).1.plc.block .M).start).toNat 1)[0]? =
        some 0x2A := by decide +kernel
  have hsame : some (0x2A : UInt8) = some ((none : Option UInt8).getD 0) :=
    himage.symm.trans (hbyte.trans (congrArg (fun b : Option UInt8 => some (b.getD 0)) hnothing))
  exact absurd hsame (by decide)

end OipComms.S7
