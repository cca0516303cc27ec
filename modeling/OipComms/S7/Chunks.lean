import OipComms.S7.Stream

/-!
# The chunks of a block

`S7_read(mem)` asks for a block in chunks of `PDUMaxLength - 25` bytes, and `PDUMaxLength` is what
the controller has said in the negotiation, which nobody checks. `chunkPlan` is the list of chunks
the loop comes to, `readChunks_eq` says that the loop is the reading of these chunks one after the
other, and `chunks_cover` which lengths make them the block.
-/

namespace OipComms.S7

open Slice

universe u

variable {σ : Type u}

/-! ## What an exchange leaves alone -/

/-- What an exchange may change: the buffer, the socket, and the state to 0. -/
structure S7Plc.Exchanged (plc plc' : S7Plc σ) : Prop where
  rest : plc' = { plc with buff := plc'.buff, sock := plc'.sock, state := plc'.state }
  state : plc'.state = plc.state ∨ plc'.state = 0

namespace S7Plc.Exchanged

/-- An exchange that is answered leaves the rest of the connection. -/
theorem received (plc : S7Plc σ) (sock : σ) (buff : List UInt8) :
    plc.Exchanged { plc with sock := sock, buff := buff } := ⟨rfl, .inl rfl⟩

/-- An exchange that closes the connection leaves the rest of it. -/
theorem closed (plc : S7Plc σ) (sock : σ) (buff : List UInt8) :
    plc.Exchanged { plc with sock := sock, buff := buff, state := 0 } := ⟨rfl, .inr rfl⟩

/-- Two exchanges leave the rest of the connection. -/
theorem trans {a b c : S7Plc σ} (h : a.Exchanged b) (h' : b.Exchanged c) : a.Exchanged c := by
  refine ⟨?_, ?_⟩
  · rw [h'.rest, h.rest]
  · rcases h'.state with hsame | hzero
    · exact h.state.imp hsame.trans hsame.trans
    · exact .inr hzero

theorem block {plc plc' : S7Plc σ} (h : plc.Exchanged plc') (area : Area) :
    plc'.block area = plc.block area := by
  rw [h.rest]
  cases area <;> rfl

theorem pduMaxLength {plc plc' : S7Plc σ} (h : plc.Exchanged plc') :
    plc'.pduMaxLength = plc.pduMaxLength := by rw [h.rest]

theorem tags {plc plc' : S7Plc σ} (h : plc.Exchanged plc') : plc'.tags = plc.tags := by rw [h.rest]

end S7Plc.Exchanged

/-- `S7_TcpExchange` leaves the rest of the connection. -/
theorem tcpExchange_exchanged (net : Net σ) (plc : S7Plc σ) (request : List UInt8) :
    plc.Exchanged (plc.tcpExchange net request).2 := by
  have hkeeps : net.Keeps plc.Exchanged :=
    { close := fun h => h.trans (.closed _ _ _)
      recv := fun _ h => h.trans (.received _ _ _)
      store := fun _ h => h.trans (.received _ _ _) }
  exact (tcpExchange_keeps hkeeps request (.received plc _ plc.buff)).2

/-- A chunk leaves the length of a PDU. -/
theorem s7ReadChunk_pduMaxLength (net : Net σ) (plc : S7Plc σ) (area : Area) (start quantity : Int) :
    (plc.s7ReadChunk net area start quantity).pduMaxLength = plc.pduMaxLength := by
  have hexchange := tcpExchange_exchanged net plc (readRequest area start quantity)
  rw [S7Plc.s7ReadChunk]
  simp only
  split
  · rw [S7Plc.setBlock_pduMaxLength, hexchange.pduMaxLength]
  · exact hexchange.pduMaxLength

/-! ## The loop -/

/-- The chunks the loop of `S7_read(mem)` asks for, from the chunk of `n` bytes at `i` on, each with
its start and its size; `none` when the loop has not ended after `fuel` chunks. -/
def chunkPlan (pdu start quantity : Int) : Nat → Int → Int → Option (List (Int × Int))
  | 0, _, n => if n = 0 then some [] else none
  | fuel + 1, i, n =>
    if n = 0 then some []
    else
      (chunkPlan pdu start quantity fuel (int32 (i + n))
        (min (pdu - 25) (int32 (quantity - int32 (i + n) + start)))).map ((i, n) :: ·)

/-- The chunks read one after the other. -/
def S7Plc.readAll (net : Net σ) (area : Area) (plc : S7Plc σ) (chunks : List (Int × Int)) : S7Plc σ :=
  chunks.foldl (fun plc chunk => plc.s7ReadChunk net area chunk.1 chunk.2) plc

/-- The loop reads the chunks of its plan. -/
theorem readChunks_eq (net : Net σ) (area : Area) (start quantity : Int) (fuel : Nat) (i n : Int)
    (plc : S7Plc σ) :
    S7Plc.readChunks net area start quantity fuel i n plc =
      (chunkPlan plc.pduMaxLength start quantity fuel i n).map (plc.readAll net area) := by
  induction fuel generalizing i n plc with
  | zero =>
    rw [S7Plc.readChunks, chunkPlan]
    split <;> rfl
  | succ fuel ih =>
    rw [S7Plc.readChunks, chunkPlan]
    by_cases hn : n = 0
    · rw [if_pos hn, if_pos hn]
      rfl
    · rw [if_neg hn, if_neg hn]
      simp only [ih, s7ReadChunk_pduMaxLength, Option.map_map]
      rfl

/-- The chunks `S7_read(mem)` asks for. -/
def blockChunks (pdu start quantity : Int) (fuel : Nat) : Option (List (Int × Int)) :=
  chunkPlan pdu start quantity fuel start (min (pdu - 25) quantity)

/-- The block `S7_read(mem)` takes its snapshot of. -/
def S7MemoryBlock.snapshot (mem : S7MemoryBlock) : S7MemoryBlock :=
  if mem.resized then
    { mem with memImage := resize mem.memImage mem.quantity.toNat, resized := false }
  else mem

@[simp] theorem S7MemoryBlock.snapshot_start (mem : S7MemoryBlock) :
    mem.snapshot.start = mem.start := by
  rw [S7MemoryBlock.snapshot]
  split <;> rfl

@[simp] theorem S7MemoryBlock.snapshot_quantity (mem : S7MemoryBlock) :
    mem.snapshot.quantity = mem.quantity := by
  rw [S7MemoryBlock.snapshot]
  split <;> rfl

/-- `S7_read(mem)` of a block in use reads the chunks of its plan. -/
theorem s7ReadBlock_eq (net : Net σ) (fuel : Nat) (plc : S7Plc σ) (area : Area)
    (h : (plc.block area).quantity ≠ 0) :
    plc.s7ReadBlock net fuel area =
      (blockChunks plc.pduMaxLength (plc.block area).start (plc.block area).quantity fuel).map
        ((plc.setBlock area (plc.block area).snapshot).readAll net area) := by
  have hsnapshot : plc.s7ReadBlock net fuel area =
      S7Plc.readChunks net area (plc.block area).snapshot.start (plc.block area).snapshot.quantity
        fuel (plc.block area).snapshot.start
        (min ((plc.setBlock area (plc.block area).snapshot).pduMaxLength - 25)
          (plc.block area).snapshot.quantity)
        (plc.setBlock area (plc.block area).snapshot) := by
    rw [S7Plc.s7ReadBlock, if_neg h]
    rfl
  rw [hsnapshot, readChunks_eq, S7MemoryBlock.snapshot_start, S7MemoryBlock.snapshot_quantity,
    S7Plc.setBlock_pduMaxLength]
  rfl

/-! ## The negotiated length -/

/-- `ConnectRequest`. -/
def connectRequest : List UInt8 :=
  [0x03, 0x00, 0x00, 0x16, 0x11, 0xe0, 0x00, 0x00, 0x00, 0x01, 0x00, 0xc0, 0x01, 0x0a, 0xc1, 0x02,
   0x4b, 0x54, 0xc2, 0x02, 0x03, 0x01]

/-- `NegotiatePduLength`. -/
def negotiatePduLength : List UInt8 :=
  [0x03, 0x00, 0x00, 0x19, 0x02, 0xf0, 0x80, 0x32, 0x01, 0x00, 0x00, 0x00, 0x05, 0x00, 0x08, 0x00,
   0x00, 0xf0, 0x00, 0x00, 0x01, 0x00, 0x01, 0x03, 0xc0]

/-- `(hi << 8) + lo`. -/
def pduLength (hi lo : UInt8) : Int := (hi.toNat <<< 8 + lo.toNat : Nat)

/-- The branch of `s7_poll` on state 1: the connection is made known to the controller, and the
length of a PDU is what its reply says. -/
def S7Plc.s7Negotiate (net : Net σ) (plc : S7Plc σ) : S7Plc σ :=
  let (ret, plc) := plc.tcpExchange net connectRequest
  if ret = 22 then
    let (ret, plc) := plc.tcpExchange net negotiatePduLength
    if ret = 27 ∧ plc.buff.getD 16 0 = 0 then
      { plc with pduMaxLength := pduLength (plc.buff.getD 25 0) (plc.buff.getD 26 0), state := 2 }
    else plc
  else plc

/-- The negotiated length is any number of 16 bits. -/
theorem pduLength_range (hi lo : UInt8) : 0 ≤ pduLength hi lo ∧ pduLength hi lo < 65536 := by
  have hhi := hi.toNat_lt
  have hlo := lo.toNat_lt
  rw [pduLength, Nat.shiftLeft_eq]
  omega

/-- A connection that has become ready has the length two bytes of a reply gave it. -/
theorem s7Negotiate_pduMaxLength (net : Net σ) {plc : S7Plc σ} (hstate : plc.state ≠ 2)
    (hready : (plc.s7Negotiate net).state = 2) :
    ∃ hi lo, (plc.s7Negotiate net).pduMaxLength = pduLength hi lo := by
  have hfirst := tcpExchange_exchanged net plc connectRequest
  revert hready
  rw [S7Plc.s7Negotiate]
  generalize plc.tcpExchange net connectRequest = answer at hfirst
  obtain ⟨ret, plc₁⟩ := answer
  have hkept : ∀ plc' : S7Plc σ, plc.Exchanged plc' → plc'.state ≠ 2 := fun plc' h hready =>
    h.state.elim (fun hsame => hstate (hsame ▸ hready)) fun hzero => by omega
  by_cases hret : ret = 22
  · have hsecond := tcpExchange_exchanged net plc₁ negotiatePduLength
    simp only [hret, if_true]
    generalize plc₁.tcpExchange net negotiatePduLength = answer at hsecond
    obtain ⟨ret', plc₂⟩ := answer
    by_cases hok : ret' = 27 ∧ plc₂.buff.getD 16 0 = 0
    · simp only [hok, and_self, if_true]
      exact fun _ => ⟨_, _, rfl⟩
    · simp only [hok, if_false]
      exact fun hready => absurd hready (hkept plc₂ (hfirst.trans hsecond))
  · simp only [hret, if_false]
    exact fun hready => absurd hready (hkept plc₁ hfirst)

/-- The replies of a controller that says its PDUs have this length. -/
def connectFrame : Frame := ⟨[3, 0, 0, 22] ++ List.replicate 18 0, by decide, by decide⟩

def negotiateFrame (hi lo : UInt8) : Frame :=
  ⟨[3, 0, 0, 27] ++ List.replicate 21 0 ++ [hi, lo], Nat.le_of_ble_eq_true rfl, rfl⟩

def Frame.whole (frame : Frame) : Answer :=
  { reply := frame.bytes, arrives := frame.bytes.length }

/-- Any length of two bytes can be what the controller says. -/
theorem s7Negotiate_installs (plc : S7Plc Stream) (hi lo : UInt8) :
    ((plc.awaiting [connectFrame.whole, (negotiateFrame hi lo).whole]).s7Negotiate
        Stream.net).pduMaxLength = pduLength hi lo ∧
      ((plc.awaiting [connectFrame.whole, (negotiateFrame hi lo).whole]).s7Negotiate
        Stream.net).state = 2 := by
  generalize hplc : plc.awaiting [connectFrame.whole, (negotiateFrame hi lo).whole] = plc₀
  have hstart : plc₀.sock = Stream.drained [connectFrame.whole, (negotiateFrame hi lo).whole] := by
    rw [← hplc]
    rfl
  obtain ⟨sock, hconnect, hunread, hview⟩ := tcpExchange_received connectRequest
    (a := connectFrame.whole) (by rw [hstart]; rfl) (by rw [hstart]; rfl)
    (show _ = connectFrame.bytes from rfl) (by decide) rfl (by decide)
  rw [hstart] at hview
  have hnext : sock.next = some (negotiateFrame hi lo).whole := by
    have hopen : sock.isOpen = true := congrArg Prod.fst hview
    have hbroken : sock.broken = false := congrArg (fun v => v.2.1) hview
    have hanswers : sock.answers = [(negotiateFrame hi lo).whole] := congrArg (fun v => v.2.2) hview
    rw [Stream.next, Stream.leaves, hanswers, hopen, hbroken]
    rfl
  generalize hmet : ({ plc₀ with
    sock := sock
    buff := overwrite plc₀.buff 0 connectFrame.bytes } : S7Plc Stream) = plc₁ at hconnect
  have hsock : plc₁.sock = sock := by rw [← hmet]
  obtain ⟨sock', hnegotiate, -, -⟩ := tcpExchange_received negotiatePduLength (hsock ▸ hunread)
    (hsock ▸ hnext) (show _ = (negotiateFrame hi lo).bytes from rfl)
    ⟨rfl, Nat.le_of_ble_eq_true rfl⟩ rfl (Nat.le_of_ble_eq_true rfl)
  rw [S7Plc.s7Negotiate, hconnect]
  simp only [hnegotiate]
  exact ⟨rfl, rfl⟩

/-! ## Chunks and the block -/

/-- Non-empty ranges, each from where the one before it ends, from `a` to `b`. -/
def Partition : List (Int × Int) → Int → Int → Prop
  | [], a, b => a = b
  | (i, n) :: chunks, a, b => i = a ∧ 0 < n ∧ Partition chunks (a + n) b

/-- The loop ends after the last byte of the block, whatever size above 25 a PDU has. -/
theorem chunkPlan_partition {pdu start quantity : Int} (hpdu : 26 ≤ pdu) (hstart : 0 ≤ start)
    (hend : start + quantity ≤ 65536) (fuel : Nat) {i : Int} (hi : start ≤ i)
    (hle : i ≤ start + quantity) (hfuel : start + quantity - i ≤ fuel) :
    ∃ chunks, chunkPlan pdu start quantity fuel i (min (pdu - 25) (start + quantity - i)) =
        some chunks ∧ Partition chunks i (start + quantity) ∧
      ∀ chunk ∈ chunks, chunk.2 ≤ pdu - 25 ∧ chunk.2 ≤ quantity := by
  induction fuel generalizing i with
  | zero =>
    refine ⟨[], ?_, by simp only [Partition]; omega, fun chunk h => nomatch h⟩
    rw [chunkPlan, if_pos (by omega)]
  | succ fuel ih =>
    by_cases hdone : start + quantity - i = 0
    · refine ⟨[], ?_, by simp only [Partition]; omega, fun chunk h => nomatch h⟩
      rw [chunkPlan, if_pos (by omega)]
    · generalize hn : min (pdu - 25) (start + quantity - i) = n
      have hnext : int32 (i + n) = i + n := int32_eq_self (by omega) (by omega)
      have hleft : int32 (quantity - (i + n) + start) = start + quantity - (i + n) := by
        rw [int32_eq_self (by omega) (by omega)]
        omega
      obtain ⟨chunks, hplan, hparts, hsizes⟩ := ih (i := i + n) (by omega) (by omega) (by omega)
      refine ⟨(i, n) :: chunks, ?_, ⟨rfl, by omega, hparts⟩, ?_⟩
      · rw [chunkPlan, if_neg (by omega), hnext, hleft, hplan]
        rfl
      · intro chunk hchunk
        rcases List.mem_cons.mp hchunk with rfl | hchunk
        · simp only
          omega
        · exact hsizes chunk hchunk

/-- The first chunk is the one the loop starts with. -/
theorem chunkPlan_head {pdu start quantity i n : Int} {fuel : Nat} {chunk : Int × Int}
    {chunks : List (Int × Int)}
    (h : chunkPlan pdu start quantity fuel i n = some (chunk :: chunks)) : chunk = (i, n) := by
  cases fuel with
  | zero =>
    rw [chunkPlan] at h
    split at h <;> cases h
  | succ fuel =>
    rw [chunkPlan] at h
    by_cases hn : n = 0
    · rw [if_pos hn] at h
      cases h
    · rw [if_neg hn, Option.map_eq_some_iff] at h
      obtain ⟨rest, -, hcons⟩ := h
      exact (List.cons.inj hcons).1.symm

/-- `S7_read(mem)` asks for its block: its loop ends, its chunks are non-empty, follow each other and
make up the block, and the reply to each fits a PDU and the buffer. -/
def S7Plc.Covers (plc : S7Plc σ) (area : Area) : Prop :=
  ∃ fuel chunks,
    blockChunks plc.pduMaxLength (plc.block area).start (plc.block area).quantity fuel = some chunks ∧
    (∀ net : Net σ, plc.s7ReadBlock net fuel area =
      some ((plc.setBlock area (plc.block area).snapshot).readAll net area chunks)) ∧
    Partition chunks (plc.block area).start ((plc.block area).start + (plc.block area).quantity) ∧
    ∀ chunk ∈ chunks, 25 + chunk.2 ≤ plc.pduMaxLength ∧ 25 + chunk.2 ≤ buffSize

/-- With a length of less than 26, or above 1000 where a chunk can make use of it, the first chunk is
already none of a covering. -/
theorem not_covers_of_first {plc : S7Plc σ} {area : Area}
    (hquantity : 1 ≤ (plc.block area).quantity)
    (hfirst : plc.pduMaxLength ≤ 25 ∨ 1000 < plc.pduMaxLength ∧ 975 < (plc.block area).quantity) :
    ¬ plc.Covers area := by
  rintro ⟨fuel, chunks, hplan, -, hparts, hsizes⟩
  cases chunks with
  | nil =>
    simp only [Partition] at hparts
    omega
  | cons chunk chunks =>
    obtain rfl := chunkPlan_head hplan
    obtain ⟨-, hpos, -⟩ := hparts
    have hfits := (hsizes _ List.mem_cons_self).2
    simp only [buffSize] at hfits hpos
    omega

/-- The chunks cover a block exactly when a PDU has room for a byte, and the buffer for a chunk. -/
theorem chunks_cover (plc : S7Plc σ) (area : Area) (hi lo : UInt8)
    (hpdu : plc.pduMaxLength = pduLength hi lo) (hstart : 0 ≤ (plc.block area).start)
    (hquantity : 1 ≤ (plc.block area).quantity)
    (hend : (plc.block area).start + (plc.block area).quantity ≤ 65536) :
    plc.Covers area ↔
      26 ≤ pduLength hi lo ∧ (pduLength hi lo ≤ 1000 ∨ (plc.block area).quantity ≤ 975) := by
  rw [← hpdu]
  constructor
  · intro hcovers
    by_contra hshort
    exact not_covers_of_first hquantity (by omega) hcovers
  · rintro ⟨hroom, hbuffer⟩
    have hplan := chunkPlan_partition hroom hstart hend (plc.block area).quantity.toNat
      (Int.le_refl _) (by omega) (by omega)
    rw [show (plc.block area).start + (plc.block area).quantity - (plc.block area).start =
      (plc.block area).quantity by omega] at hplan
    obtain ⟨chunks, hchunks, hparts, hsizes⟩ := hplan
    have hread : ∀ net : Net σ, plc.s7ReadBlock net (plc.block area).quantity.toNat area =
        some ((plc.setBlock area (plc.block area).snapshot).readAll net area chunks) := by
      intro net
      rw [s7ReadBlock_eq _ _ _ _ (by omega), blockChunks, hchunks]
      rfl
    refine ⟨(plc.block area).quantity.toNat, chunks, hchunks, hread, hparts, fun chunk hchunk => ?_⟩
    have hsize := hsizes chunk hchunk
    rw [buffSize]
    omega

/-- A connection to a controller that says its PDUs have the given length, and so many bytes of
inputs to read. -/
def negotiated (hi lo : UInt8) (quantity : Int) : S7Plc Stream :=
  S7Plc.s7Negotiate Stream.net ({ S7Plc.new Stream.net 0 [] with
    state := 1
    i := { start := 0, quantity := quantity, resized := true } }.awaiting
      [connectFrame.whole, (negotiateFrame hi lo).whole])

/-- 500 bytes are read in chunks of 215, 215 and 70. -/
theorem chunks_cover_three : (negotiated 0 240 500).Covers .I :=
  (chunks_cover (negotiated 0 240 500) .I 0 240 (s7Negotiate_installs _ 0 240).1 (by decide +kernel)
    (by decide +kernel) (by decide +kernel)).mpr (by decide +kernel)

/-- A controller can say 20, and the reading of a byte then starts with a chunk of -5 bytes. -/
theorem chunks_of_short_pdu :
    (negotiated 0 20 1).state = 2 ∧ (negotiated 0 20 1).pduMaxLength = pduLength 0 20 ∧
      ((negotiated 0 20 1).block .I).start = 0 ∧ ((negotiated 0 20 1).block .I).quantity = 1 ∧
      ¬ (negotiated 0 20 1).Covers .I := by
  obtain ⟨hpdu, hstate⟩ := s7Negotiate_installs _ 0 20
  refine ⟨hstate, hpdu, by decide +kernel, by decide +kernel, ?_⟩
  exact not_covers_of_first (by decide +kernel) (.inl (by decide +kernel))

end OipComms.S7
