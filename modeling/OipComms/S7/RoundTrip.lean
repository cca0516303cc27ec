import OipComms.S7.Controller

/-!
# From a write to a read

A value goes out through `S7_tag_set_*` and `S7_tag_write` as the job of a frame, into the memory
of the controller, and comes back with the next reading of the block through `S7_tag_get_*`. The
two directions share no code: the write splits the address and the value itself, the read template
encodes its own address, and the tag is cut out of the image by offsets.

`written_value_read_back` follows a value all the way, for every tag that denotes an address.
-/

namespace OipComms.S7

open BigEndian Slice BitMemory FirstMatch

universe u

/-! ## What a write sets -/

/-- The bits of an area that a write to a tag sets. -/
def S7Tag.Covers (tag : S7Tag) (k : Nat) : Prop :=
  if tag.bitIdx = -1 then tag.address ≤ k ∧ k < tag.address + 8 * tag.byteQty
  else k = tag.address

instance (tag : S7Tag) (k : Nat) : Decidable (tag.Covers k) := by
  unfold S7Tag.Covers
  infer_instance

/-- A job, bit by bit: what it sets does not depend on what was there. -/
theorem job_apply (tag : S7Tag) (area a : Area) (m : Memory) (k : Nat) :
    (tag.job area).apply m a k =
      if a = area ∧ tag.Covers k then
        if tag.bitIdx = -1 then
          ((toBE tag.byteQty tag.pendingValue.toNat).getD ((k - tag.address) / 8) 0).toNat.testBit
            (k % 8)
        else decide (tag.pendingValue.toNat % 256 ≠ 0)
      else m a k := by
  unfold S7Tag.job S7Tag.Covers
  by_cases hbit : tag.bitIdx = -1
  · have hwhole := address_mod hbit
    simp only [if_pos hbit, Request.apply]
    by_cases ha : a = area
    · subst ha
      simp only [if_true, true_and, storeBytes, length_toBE]
      by_cases hk : tag.address ≤ k ∧ k < tag.address + 8 * tag.byteQty
      · rw [if_pos hk, if_pos (by omega), show k / 8 - tag.address / 8 = (k - tag.address) / 8 by omega]
      · rw [if_neg hk, if_neg (by omega)]
    · rw [if_neg ha, if_neg (fun h => ha h.1)]
  · simp only [if_neg hbit, Request.apply]
    by_cases ha : a = area
    · subst ha
      simp only [if_true, true_and, storeBit]
    · rw [if_neg ha, if_neg (fun h => ha h.1)]

/-- The job of a tag of whole bytes sets them to the value, and no other byte. -/
theorem job_bytes {tag : S7Tag} {area : Area} (h : tag.Valid area) (hbit : tag.bitIdx = -1)
    (m : Memory) (a : Area) (i : Nat) :
    byteAt ((tag.job area).apply m a) i =
      if a = area ∧ tag.idx.toNat ≤ i ∧ i < tag.idx.toNat + tag.byteQty then
        (toBE tag.byteQty tag.pendingValue.toNat).getD (i - tag.idx.toNat) 0
      else byteAt (m a) i := by
  have haddress : tag.address / 8 = tag.idx.toNat := by
    rw [h.address_eq, if_pos hbit]
    omega
  rw [S7Tag.job, if_pos hbit, haddress]
  show byteAt (if a = area then storeBytes (m a) _ _ else m a) i = _
  by_cases ha : a = area
  · rw [if_pos ha, byteAt_storeBytes, length_toBE]
    simp only [ha, true_and]
  · rw [if_neg ha, if_neg (fun h => ha h.1)]

/-- The job of a bit sets the bit, and no other. -/
theorem job_bit {tag : S7Tag} {area : Area} (h : tag.Valid area) (hbit : tag.bitIdx ≠ -1)
    (hvalue : tag.pendingValue.toNat < 2) (m : Memory) (a : Area) (k : Nat) :
    (tag.job area).apply m a k =
      if a = area ∧ k = 8 * tag.idx.toNat + tag.bitIdx.toNat then decide (tag.pendingValue = 1)
      else m a k := by
  have hone : decide (tag.pendingValue.toNat % 256 ≠ 0) = decide (tag.pendingValue = 1) := by
    rw [decide_eq_decide, ← UInt64.toNat_inj]
    show _ ↔ tag.pendingValue.toNat = 1
    omega
  rw [job_apply]
  simp only [S7Tag.Covers, if_neg hbit, h.address_eq, hone]

/-! ## What a read makes of an image -/

/-- The loop of `S7_read(tag)` on a reversed copy. -/
theorem fromLittleEndian_eq {bytes : List UInt8} {i : Nat} {value : UInt64}
    (hvalue : value.toNat < 256 ^ i) (hlen : i + bytes.length ≤ 8) :
    (fromLittleEndian i bytes value).toNat = value.toNat + 256 ^ i * ofBE bytes.reverse := by
  induction bytes generalizing i value with
  | nil => rfl
  | cons b bytes ih =>
    rw [List.length_cons] at hlen
    have hshift : (b.toUInt64 <<< (8 * i).toUInt64).toNat = b.toNat * 256 ^ i := by
      have hb := b.toNat_lt
      have hpow : (256 : Nat) ^ i = 2 ^ (8 * i) := by
        rw [show (256 : Nat) = 2 ^ 8 from rfl, ← Nat.pow_mul]
      have hfits : 2 ^ (8 * i) ≤ 2 ^ 56 := Nat.pow_le_pow_right (by omega) (by omega)
      have hmod : (8 * i).toUInt64.toNat % 64 = 8 * i := by
        show 8 * i % 2 ^ 64 % 64 = 8 * i
        omega
      have hmul : b.toNat * 2 ^ (8 * i) < 2 ^ 8 * 2 ^ 56 :=
        Nat.mul_lt_mul_of_lt_of_le hb hfits (by omega)
      rw [UInt64.toNat_shiftLeft, hmod, UInt8.toNat_toUInt64, Nat.shiftLeft_eq,
        Nat.mod_eq_of_lt (by omega), hpow]
    have hor : (value ||| b.toUInt64 <<< (8 * i).toUInt64).toNat =
        value.toNat + b.toNat * 256 ^ i := by
      have hpow : (256 : Nat) ^ i = 2 ^ (8 * i) := by
        rw [show (256 : Nat) = 2 ^ 8 from rfl, ← Nat.pow_mul]
      rw [hpow] at hvalue
      rw [UInt64.toNat_or, hshift, hpow, Nat.or_comm, ← Nat.shiftLeft_eq,
        ← Nat.shiftLeft_add_eq_or_of_lt hvalue, Nat.add_comm]
    have hnext : (value ||| b.toUInt64 <<< (8 * i).toUInt64).toNat < 256 ^ (i + 1) := by
      have hb := b.toNat_lt
      have hmul : b.toNat * 256 ^ i ≤ 255 * 256 ^ i := Nat.mul_le_mul_right _ (by omega)
      rw [hor, Nat.pow_succ]
      omega
    rw [fromLittleEndian, ih hnext (by omega), hor, List.reverse_cons, ofBE_append, ofBE_cons,
      ofBE_nil]
    simp only [List.length_cons, List.length_nil, Nat.pow_succ]
    ring

/-- A tag read out of an image of the memory. -/
theorem s7ReadTag_window {plc : S7Plc Controller} {tag : S7Tag} {area : Area} {m : Bits}
    (h : tag.Valid area) (hstate : plc.state = 2) (hblock : (plc.block area).Valid)
    (hresized : (plc.block area).resized = false)
    (hlow : (plc.block area).start ≤ tag.idx)
    (hhigh : tag.idx + tag.byteQty ≤ (plc.block area).start + (plc.block area).quantity)
    (himage : (plc.block area).memImage =
      window m (plc.block area).start.toNat (plc.block area).quantity.toNat) :
    (plc.s7ReadTag tag).toNat =
      if tag.bitIdx = -1 then ofBE (window m tag.idx.toNat tag.byteQty)
      else if m (8 * tag.idx.toNat + tag.bitIdx.toNat) then 1 else 0 := by
  have hstart := hblock.start_nonneg
  have hend := hblock.end_le
  have hquantity := hblock.quantity_nonneg
  have hidx := h.idx_nonneg
  have hqty := h.byteQty
  have hlast : tag.endIdx = tag.idx + tag.byteQty := int32_eq_self (by omega) (by omega)
  have hcopy : ((plc.block area).memImage.drop (tag.idx - (plc.block area).start).toNat).take
      tag.byteQty = window m tag.idx.toNat tag.byteQty := by
    show slice (plc.block area).memImage _ _ = _
    rw [himage, slice_window _ (by omega),
      show (plc.block area).start.toNat + (tag.idx - (plc.block area).start).toNat =
        tag.idx.toNat by omega]
  have hvalue : (fromLittleEndian 0 (window m tag.idx.toNat tag.byteQty).reverse 0).toNat =
      ofBE (window m tag.idx.toNat tag.byteQty) := by
    rw [fromLittleEndian_eq (by decide) (by rw [List.length_reverse, length_window]; omega),
      List.reverse_reverse]
    show 0 + 256 ^ 0 * _ = _
    omega
  unfold S7Plc.s7ReadTag
  simp only [h.mem, hstate, ne_eq, not_true, if_false, hresized, hlast, Bool.false_eq_true,
    false_or, hcopy]
  rw [int32_eq_self (by omega) (by omega), if_neg (by omega)]
  by_cases hbit : tag.bitIdx = -1
  · rw [if_neg (not_not.mpr hbit), if_pos hbit, hvalue]
  · obtain ⟨hone, hlo, hhi⟩ := h.bitIdx.resolve_left hbit
    obtain ⟨k, hk⟩ := Int.eq_ofNat_of_zero_le hlo
    have hbyte : ofBE (window m tag.idx.toNat tag.byteQty) = (byteAt m tag.idx.toNat).toNat := by
      rw [hone]
      exact ofBE_singleton _
    rw [if_pos hbit, if_neg hbit, hk, Int.toNat_natCast, UInt64.toNat_and, UInt64.toNat_shiftRight,
      hvalue, hbyte, show k.toUInt64.toNat % 64 = k by
        show k % 2 ^ 64 % 64 = k
        omega,
      show UInt64.toNat 1 = 1 from rfl, Nat.and_one_is_mod, Nat.shiftRight_eq_div_pow,
      ← Nat.toNat_testBit, testBit_byteAt m _ (by omega)]
    cases m (8 * tag.idx.toNat + k) <;> rfl

/-! ## The way of a handle -/

variable {σ : Type u}

/-- A handle leads to a tag of a connection: the two searches end there. -/
structure Leads (s : S7State σ) (handle : Int) (plc : S7Plc σ) (tag : S7Tag) : Prop where
  plcs : s.s7Plcs.find? (hasPlcId handle) = some plc
  tags : plc.tags.find? (hasId handle) = some tag

/-- Two states of one tag. -/
structure S7Tag.SameAddress (tag' tag : S7Tag) : Prop where
  idx : tag'.idx = tag.idx
  bitIdx : tag'.bitIdx = tag.bitIdx
  byteQty : tag'.byteQty = tag.byteQty
  mem : tag'.mem = tag.mem

/-- A read looks at the address only. -/
theorem s7ReadTag_congr {tag tag' : S7Tag} (h : tag'.SameAddress tag) (plc : S7Plc σ) :
    plc.s7ReadTag tag' = plc.s7ReadTag tag := by
  obtain ⟨id, idx, bitIdx, byteQty, mem, pendingValue, writePending⟩ := tag
  obtain ⟨id', idx', bitIdx', byteQty', mem', pendingValue', writePending'⟩ := tag'
  obtain ⟨rfl, rfl, rfl, rfl⟩ := h
  rfl

theorem S7Tag.Valid.s7Write {tag : S7Tag} {area : Area} (h : tag.Valid area) (v : UInt64) :
    (tag.s7Write v).Valid area :=
  ⟨h.mem, h.idx_nonneg, h.end_le, h.byteQty, h.bitIdx⟩

/-- An action on the connection a handle leads to. -/
theorem onPlc_of_find {s : S7State σ} {handle : Int} {plc : S7Plc σ}
    (h : s.s7Plcs.find? (hasPlcId handle) = some plc) (act : S7Plc σ → Int × S7Plc σ)
    (hid : (act plc).2.identifier = plc.identifier) :
    ∃ s', onPlc handle act s = ((act plc).1, s') ∧
      s'.s7Plcs.find? (hasPlcId handle) = some (act plc).2 := by
  have hfound : hasPlcId handle plc = true := List.find?_some h
  have hplc : hasPlcId handle (act plc).2 = true := by
    rw [hasPlcId, hid]
    exact hfound
  obtain ⟨plcs, hmatch, hfind⟩ := firstMatch_of_find act h hplc
  refine ⟨{ s with s7Plcs := plcs }, ?_, hfind⟩
  rw [onPlc, hmatch]

/-- The two calls of a write, over a link that is up. -/
theorem write_sent {s : S7State Controller} {handle : Int} {plc : S7Plc Controller} {tag : S7Tag}
    {area : Area} (h : tag.Valid area) (hlead : Leads s handle plc tag) (hstate : plc.state = 2)
    (hup : plc.sock.next.isUp = true) (v : UInt64) :
    ∃ s₁ s₂ tags sock buff tag', s7WriteTag s handle v = (0, s₁) ∧
      s7TagWrite Controller.net s₁ handle = (0, s₂) ∧
      Leads s₂ handle { plc with tags := tags, sock := sock, buff := buff } tag' ∧
      tag'.SameAddress tag ∧
      sock.memory = ((tag.s7Write v).job area).apply plc.sock.memory ∧
      sock.links = plc.sock.links.tail := by
  have htag : hasId handle tag = true := List.find?_some hlead.tags
  -- `S7_writeTag` caches the value
  obtain ⟨tags₁, hcache, hcached⟩ := firstMatch_of_find
    (fun tag => ((), S7Tag.s7Write tag v)) hlead.tags htag
  have hwrite : plc.s7Write handle v = (0, { plc with tags := tags₁ }) := by
    rw [S7Plc.s7Write, hcache]
  obtain ⟨s₁, hset, hfind₁⟩ := onPlc_of_find hlead.plcs
    (fun plc => plc.s7Write handle v) (by simp only [hwrite])
  simp only [hwrite] at hset hfind₁
  -- `S7_tag_write` sends it
  obtain ⟨sock, buff, hsend, hmemory, hlinks⟩ := s7SendTag_job (h.s7Write v).sized h.mem rfl
    (show ({ plc with tags := tags₁ } : S7Plc Controller).state = 2 from hstate)
  have hup₁ : ({ plc with tags := tags₁ } : S7Plc Controller).sock.next.isUp = true := hup
  have hcarries : plc.sock.next.carries = true := by
    cases hlink : plc.sock.next with
    | up segments => rfl
    | down =>
      rw [hlink] at hup
      cases hup
    | lost arrived => rfl
  simp only [hup₁, if_true, Bool.not_true] at hsend
  rw [show ({ plc with tags := tags₁ } : S7Plc Controller).sock = plc.sock from rfl, hcarries,
    if_pos rfl] at hmemory
  obtain ⟨tags₂, hmatch, hfind⟩ := firstMatch_of_find
    (({ plc with tags := tags₁ } : S7Plc Controller).sendEntry Controller.net) hcached
    (by rw [S7Plc.sendEntry, hsend]; exact htag)
  rw [S7Plc.sendEntry, hsend] at hmatch hfind
  have hsent : ({ plc with tags := tags₁ } : S7Plc Controller).sendTagById Controller.net handle =
      (0, { plc with tags := tags₂, sock := sock, buff := buff }) := by
    rw [S7Plc.sendTagById, hmatch, ← hstate]
  obtain ⟨s₂, hwritten, hfind₂⟩ := onPlc_of_find hfind₁
    (fun plc => plc.sendTagById Controller.net handle) (by simp only [hsent])
  simp only [hsent] at hwritten hfind₂
  exact ⟨s₁, s₂, tags₂, sock, buff, _, hset, hwritten, ⟨hfind₂, hfind⟩, ⟨rfl, rfl, rfl, rfl⟩, hmemory,
    hlinks⟩

/-! ## The way back -/

/-- The bytes of a job, in any memory that agrees with it where the tag is. -/
theorem job_window {tag : S7Tag} {area : Area} (h : tag.Valid area) (hbit : tag.bitIdx = -1)
    {m m' : Memory}
    (hagree : ∀ k, tag.Covers k → m' area k = (tag.job area).apply m area k) :
    window (m' area) tag.idx.toNat tag.byteQty = toBE tag.byteQty tag.pendingValue.toNat := by
  have haddress : tag.address = 8 * tag.idx.toNat := by
    rw [h.address_eq, if_pos hbit, Nat.add_zero]
  have hstored : (tag.job area).apply m area =
      storeBytes (m area) tag.idx.toNat (toBE tag.byteQty tag.pendingValue.toNat) := by
    rw [S7Tag.job, if_pos hbit, haddress, show 8 * tag.idx.toNat / 8 = tag.idx.toNat by omega]
    show (if area = area then _ else _) = _
    rw [if_pos rfl]
  have hwindow := window_storeBytes (m area) tag.idx.toNat
    (toBE tag.byteQty tag.pendingValue.toNat)
  rw [length_toBE] at hwindow
  rw [← hwindow, ← hstored]
  apply window_congr
  intro j hlo hhi
  apply byteAt_congr
  intro k hk
  apply hagree
  rw [S7Tag.Covers, if_pos hbit, haddress]
  omega

/-- A connection whose next reading of a block tells about a tag: it is connected, the block is
valid and holds the tag, and the chunks are read to the end, each with a reply that fits in the
buffer, over a link that stays up. -/
structure Readable (plc : S7Plc Controller) (tag : S7Tag) (area : Area) : Prop where
  state : plc.state = 2
  block : (plc.block area).Valid
  low : (plc.block area).start ≤ tag.idx
  high : tag.idx + tag.byteQty ≤ (plc.block area).start + (plc.block area).quantity
  progress : 25 < plc.pduMaxLength
  fits : min (plc.pduMaxLength - 25) (plc.block area).quantity ≤ 975
  up : ∀ l ∈ plc.sock.links, l.isUp = true

/-- A write leaves the connection as readable as it was. -/
theorem Readable.sent {plc : S7Plc Controller} {tag : S7Tag} {area : Area}
    (h : Readable plc tag area) {tags : List S7Tag} {sock : Controller} {buff : List UInt8}
    (hlinks : sock.links = plc.sock.links.tail) :
    Readable { plc with tags := tags, sock := sock, buff := buff } tag area := by
  have hblock : ({ plc with tags := tags, sock := sock, buff := buff } : S7Plc Controller).block area =
      plc.block area := by
    cases area <;> rfl
  refine ⟨h.state, ?_, ?_, ?_, h.progress, ?_, ?_⟩
  · rw [hblock]
    exact h.block
  · rw [hblock]
    exact h.low
  · rw [hblock]
    exact h.high
  · rw [hblock]
    exact h.fits
  · intro l hl
    rw [hlinks] at hl
    exact h.up l (List.mem_of_mem_tail hl)

/-- A reading of the block brings the tag as the controller has it. -/
theorem read_back {plc : S7Plc Controller} {tag : S7Tag} {area : Area} (h : tag.Valid area)
    (hread : Readable plc tag area) {fuel : Nat} (hfuel : (plc.block area).quantity.toNat ≤ fuel) :
    ∃ plc', plc.s7ReadBlock Controller.net fuel area = some plc' ∧
      plc'.identifier = plc.identifier ∧ plc'.tags = plc.tags ∧ (plc'.s7ReadTag tag).toNat =
        if tag.bitIdx = -1 then ofBE (window (plc.sock.memory area) tag.idx.toNat tag.byteQty)
        else if plc.sock.memory area (8 * tag.idx.toNat + tag.bitIdx.toNat) then 1 else 0 := by
  have hlow := hread.low
  have hhigh := hread.high
  have hqty := h.byteQty
  obtain ⟨sock, buff, hblock, _, _⟩ := s7ReadBlock_up hread.block (by omega) hread.progress
    hread.fits hread.up hfuel
  refine ⟨_, hblock, S7Plc.setBlock_identifier _ _ _, S7Plc.setBlock_tags _ _ _, ?_⟩
  have hstate : (({ plc with sock := sock, buff := buff } : S7Plc Controller).setBlock area
      { plc.block area with
        resized := false
        memImage := window (plc.sock.memory area) (plc.block area).start.toNat
          (plc.block area).quantity.toNat }).state = 2 := by
    rw [← hread.state]
    cases area <;> rfl
  refine s7ReadTag_window h hstate ?_ ?_ ?_ ?_ ?_
  · rw [S7Plc.block_setBlock, if_pos rfl]
    exact ⟨hread.block.start_nonneg, hread.block.quantity_nonneg, hread.block.end_le,
      fun _ => length_window _ _ _⟩
  · rw [S7Plc.block_setBlock, if_pos rfl]
  · rw [S7Plc.block_setBlock, if_pos rfl]
    exact hlow
  · rw [S7Plc.block_setBlock, if_pos rfl]
    exact hhigh
  · rw [S7Plc.block_setBlock, if_pos rfl]

/-- What `S7_tag_set_T` widened comes back through `S7_tag_get_T` from its low bytes. -/
theorem ofUInt64_low {t : IntType} {value : Int} (h : t.Holds value) {r : UInt64}
    (hr : r.toNat = (toUInt64 value).toNat % 256 ^ t.size) : t.ofUInt64 r = value := by
  have hwide : (toUInt64 value).toNat = (value % 18446744073709551616).toNat := by
    rw [toUInt64, UInt64.toNat_ofNat']
    omega
  rw [hwide] at hr
  unfold IntType.Holds at h
  unfold IntType.ofUInt64
  cases t <;>
  · simp only [IntType.signed, IntType.size, Bool.false_eq_true, if_true, if_false, true_and,
      false_and] at h hr ⊢
    omega

theorem s7ReadTag_of_leads {s : S7State σ} {handle : Int} {plc : S7Plc σ} {tag : S7Tag}
    (h : Leads s handle plc tag) : s7ReadTag s handle = plc.s7ReadTag tag := by
  rw [s7ReadTag, h.plcs]
  show plc.s7Read handle = _
  rw [S7Plc.s7Read, h.tags]

/-- The value of a tag after its job, in any memory that agrees with the job where the tag is. -/
theorem job_read_back {plc : S7Plc Controller} {tag : S7Tag} {area : Area} (h : tag.Valid area)
    (hread : Readable plc tag area) {fuel : Nat} (hfuel : (plc.block area).quantity.toNat ≤ fuel)
    (v : UInt64) {m : Memory}
    (hagree : ∀ k, tag.Covers k →
      plc.sock.memory area k = ((tag.s7Write v).job area).apply m area k) :
    ∃ plc', plc.s7ReadBlock Controller.net fuel area = some plc' ∧
      plc'.identifier = plc.identifier ∧ plc'.tags = plc.tags ∧
      (tag.bitIdx = -1 → (plc'.s7ReadTag tag).toNat = v.toNat % 256 ^ tag.byteQty) ∧
      (tag.bitIdx ≠ -1 → v.toNat < 2 → plc'.s7ReadTag tag = v) := by
  obtain ⟨plc', hblock, hid, htags, hvalue⟩ := read_back h hread hfuel
  refine ⟨plc', hblock, hid, htags, ?_, ?_⟩
  · intro hbit
    have hwindow : window (plc.sock.memory area) tag.idx.toNat tag.byteQty =
        toBE tag.byteQty v.toNat :=
      job_window (h.s7Write v) hbit hagree
    rw [hvalue, if_pos hbit, hwindow, ofBE_toBE]
  · intro hbit hv
    have hset : plc.sock.memory area (8 * tag.idx.toNat + tag.bitIdx.toNat) = decide (v = 1) := by
      have hcovers : tag.Covers (8 * tag.idx.toNat + tag.bitIdx.toNat) := by
        rw [S7Tag.Covers, if_neg hbit, h.address_eq, if_neg hbit]
      rw [hagree _ hcovers, job_bit (h.s7Write v) hbit hv]
      exact if_pos ⟨rfl, rfl⟩
    have hone : v = 1 ↔ v.toNat = 1 := UInt64.toNat_inj.symm
    apply UInt64.toNat_inj.mp
    simp only [hvalue, hbit, hset, if_false, decide_eq_true_eq, hone]
    split <;> omega

/-- A value and its tag: the frame is a job that sets the bytes of the tag to the value, or its
bit, and nothing else; the two calls of a write carry it out; and where the controller still has
it, the next reading of the block brings it back to every handle of the tag. -/
theorem written_value_read_back {tag : S7Tag} {area : Area} (h : tag.Valid area) (v : UInt64) :
    -- the frame
    (Job (writeRequest area (tag.s7Write v)) ∧
      parseRequest (writeRequest area (tag.s7Write v)) = some ((tag.s7Write v).job area)) ∧
    -- what it sets
    (tag.bitIdx = -1 → ∀ m a i, byteAt (((tag.s7Write v).job area).apply m a) i =
      if a = area ∧ tag.idx.toNat ≤ i ∧ i < tag.idx.toNat + tag.byteQty then
        (toBE tag.byteQty v.toNat).getD (i - tag.idx.toNat) 0
      else byteAt (m a) i) ∧
    (tag.bitIdx ≠ -1 → v.toNat < 2 → ∀ m a k, ((tag.s7Write v).job area).apply m a k =
      if a = area ∧ k = 8 * tag.idx.toNat + tag.bitIdx.toNat then decide (v = 1) else m a k) ∧
    -- the calls of a write
    (∀ s handle plc, Leads s handle plc tag → plc.state = 2 → plc.sock.next.isUp = true →
      ∃ s₁ s₂ plc' tag', s7WriteTag s handle v = (0, s₁) ∧
        s7TagWrite Controller.net s₁ handle = (0, s₂) ∧ Leads s₂ handle plc' tag' ∧
        tag'.SameAddress tag ∧
        plc'.sock.memory = ((tag.s7Write v).job area).apply plc.sock.memory ∧
        (Readable plc tag area → Readable plc' tag area)) ∧
    -- the reading
    (∀ (m : Memory) (plc : S7Plc Controller) (fuel : Nat),
      (∀ k, tag.Covers k →
        plc.sock.memory area k = ((tag.s7Write v).job area).apply m area k) →
      Readable plc tag area → (plc.block area).quantity.toNat ≤ fuel →
      ∃ plc', plc.s7ReadBlock Controller.net fuel area = some plc' ∧
        plc'.identifier = plc.identifier ∧ plc'.tags = plc.tags ∧
        ∀ s handle tag', Leads s handle plc' tag' → tag'.SameAddress tag →
          (tag.bitIdx = -1 →
            (s7ReadTag s handle).toNat = v.toNat % 256 ^ tag.byteQty ∧
            ∀ t : IntType, t.size = tag.byteQty → ∀ value, t.Holds value → toUInt64 value = v →
              s7TagGet t s handle = value) ∧
          (tag.bitIdx ≠ -1 → v.toNat < 2 →
            s7ReadTag s handle = v ∧ s7TagGetBit s handle = v.toNat)) := by
  refine ⟨parse_writeRequest (h.s7Write v).sized area, ?_, ?_, ?_, ?_⟩
  · intro hbit m a i
    exact job_bytes (h.s7Write v) hbit m a i
  · intro hbit hv m a k
    exact job_bit (h.s7Write v) hbit hv m a k
  · intro s handle plc hlead hstate hup
    obtain ⟨s₁, s₂, tags, sock, buff, tag', hset, hsent, hlead', hsame, hmemory, hlinks⟩ :=
      write_sent h hlead hstate hup v
    exact ⟨s₁, s₂, _, tag', hset, hsent, hlead', hsame, hmemory, fun hread => hread.sent hlinks⟩
  · intro m plc fuel hagree hread hfuel
    obtain ⟨plc', hblock, hid, htags, hbytes, hbit⟩ := job_read_back h hread hfuel v hagree
    refine ⟨plc', hblock, hid, htags, ?_⟩
    intro s handle tag' hlead hsame
    have hvalue : s7ReadTag s handle = plc'.s7ReadTag tag := by
      rw [s7ReadTag_of_leads hlead, s7ReadTag_congr hsame]
    constructor
    · intro hno
      have hlow := hbytes hno
      rw [← hvalue] at hlow
      refine ⟨hlow, ?_⟩
      intro t hsize value hholds hvalue
      apply ofUInt64_low hholds
      rw [hlow, hvalue, hsize]
    · intro hyes hv
      have hread := hbit hyes hv
      rw [← hvalue] at hread
      refine ⟨hread, ?_⟩
      rw [s7TagGetBit, hread]
      simp only [IntType.ofUInt64, IntType.size, IntType.signed, true_and]
      omega

/-- The tag `MW5`, alone on its connection. -/
def mw5 : S7Tag := { identifier := 0, idx := 5, byteQty := 2, mem := some .M }

def mw5Plc : S7Plc Controller :=
  ({ S7Plc.new Controller.net 0 "10.0.0.1".toList with state := 2 } : S7Plc Controller).addTag .M mw5

/-- A signed value through `MW5` and back. -/
theorem mw5_read_back :
    ∃ s₁ s₂ plc fuel plc', s7TagSet { s7Plcs := [mw5Plc] } 16777216 (-2) = (0, s₁) ∧
      s7TagWrite Controller.net s₁ 16777216 = (0, s₂) ∧
      s₂.s7Plcs.find? (hasPlcId 16777216) = some plc ∧
      plc.s7ReadBlock Controller.net fuel .M = some plc' ∧
      s7TagGet .int16 { s₂ with s7Plcs := [plc'] } 16777216 = -2 := by
  have hvalid : mw5.Valid .M := ⟨rfl, by decide, by decide, by decide, .inl rfl⟩
  have hblock : (mw5Plc.block .M).Valid :=
    (show ({} : S7MemoryBlock).Valid from ⟨by decide, by decide, by decide, fun _ => rfl⟩).extend
      hvalid
  have hreadable : Readable mw5Plc mw5 .M :=
    ⟨rfl, hblock, by decide, by decide, by decide, by decide, fun l hl => nomatch hl⟩
  obtain ⟨_, _, _, hcalls, hreading⟩ := written_value_read_back hvalid (toUInt64 (-2))
  obtain ⟨s₁, s₂, plc, tag, hset, hsent, hlead, hsame, hmemory, hkeep⟩ :=
    hcalls { s7Plcs := [mw5Plc] } 16777216 mw5Plc ⟨rfl, rfl⟩ rfl rfl
  obtain ⟨plc', hread, hid, htags, hback⟩ := hreading mw5Plc.sock.memory plc _
    (fun k _ => by rw [hmemory]) (hkeep hreadable) (Nat.le_refl _)
  refine ⟨s₁, s₂, plc, _, plc', hset, hsent, hlead.plcs, hread, ?_⟩
  have hplc : hasPlcId 16777216 plc = true := List.find?_some hlead.plcs
  have hlead' : Leads { s₂ with s7Plcs := [plc'] } 16777216 plc' tag := by
    constructor
    · rw [hasPlcId, ← hid] at hplc
      exact List.find?_cons_of_pos hplc
    · rw [htags]
      exact hlead.tags
  exact ((hback _ _ _ hlead' hsame).1 rfl).2 .int16 rfl (-2)
    (by unfold IntType.Holds; decide) rfl

end OipComms.S7
