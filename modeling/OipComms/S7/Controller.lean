import OipComms.S7.Exchange
import OipComms.S7.Interface
import OipComms.S7.Request

/-!
# The other end of the wire

A controller that carries out the requests it can parse and answers them, over a link that the
environment chooses for every exchange: the request does not leave, or it is carried out and the
reply is lost on the way, or the reply arrives, cut into segments of any sizes. `Controller.net` is
the socket a connection to it sees.

Below it stand what one `S7_TcpExchange`, one `S7_sendTag` and one `S7_read` of a block come to.
-/

namespace OipComms.S7

open BigEndian Slice BitMemory

/-- How one exchange goes. `S7_TcpExchange` gives up on a reply whose first segment has fewer than
four bytes, so the first segment of a reply that arrives is counted from there. -/
inductive Link
  | down
  | lost (arrived : Nat)
  | up (segments : List Nat)
  deriving DecidableEq, Repr

/-- A controller: its memory, how the next exchanges go, and the part of a reply still to be
received with the sizes of its segments. -/
structure Controller where
  memory : Memory
  links : List Link := []
  incoming : List UInt8 := []
  segments : List Nat := []

/-- An acknowledgement. -/
def replyFrame (request : List UInt8) (function : UInt8) (data : List UInt8) : List UInt8 :=
  [3, 0] ++ toBE 2 (21 + data.length) ++
    [2, 0xf0, 0x80, 0x32, 3, 0, 0, request.getD 11 0, request.getD 12 0, 0, 2] ++
    toBE 2 data.length ++ [0, 0, function, 1] ++ data

/-- What a controller answers. -/
def Request.reply (m : Memory) (request : List UInt8) : Request → List UInt8
  | .read area start count =>
    replyFrame request 4 ([0xff, 4] ++ toBE 2 (8 * count) ++ window (m area) start count)
  | _ => replyFrame request 5 [0xff]

/-- A request carried out; one that cannot be parsed is not answered. -/
def Controller.carryOut (c : Controller) (request : List UInt8) : Memory × List UInt8 :=
  match parseRequest request with
  | some r => (r.apply c.memory, r.reply c.memory request)
  | none => (c.memory, [])

/-- How the next exchange goes: the link is up when nothing else is said. -/
def Controller.next (c : Controller) : Link := c.links.headD (.up [])

def firstSegment : List Nat → List Nat
  | [] => []
  | k :: segments => (k + 3) :: segments

def Controller.send (c : Controller) (request : List UInt8) : Int × Controller :=
  let (memory, reply) := c.carryOut request
  match c.next with
  | .down => (-1, { c with links := c.links.tail })
  | .lost arrived =>
    (request.length, { memory := memory, links := c.links.tail
                       incoming := reply.dropLast.take arrived })
  | .up segments =>
    (request.length, { memory := memory, links := c.links.tail, incoming := reply
                       segments := firstSegment segments })

/-- The bytes the next `recv` of at most `n` brings. -/
def Controller.segment (c : Controller) (n : Nat) : Nat :=
  match c.segments with
  | [] => n
  | k :: _ => min n (k + 1)

def Controller.recv (c : Controller) (n : Nat) : Option (List UInt8) × Controller :=
  if c.incoming = [] then (none, c)
  else
    (some (c.incoming.take (c.segment n)),
      { c with incoming := c.incoming.drop (c.segment n), segments := c.segments.tail })

/-- A segment is at most as long as the receive asks for. -/
theorem Controller.segment_le (c : Controller) (n : Nat) : c.segment n ≤ n := by
  unfold Controller.segment
  cases c.segments with
  | nil => exact Nat.le_refl n
  | cons k segments => exact Nat.min_le_left _ _

/-- A segment has at least one byte. -/
theorem Controller.segment_pos (c : Controller) {n : Nat} (hn : 0 < n) : 0 < c.segment n := by
  unfold Controller.segment
  cases c.segments with
  | nil => exact hn
  | cons k segments => exact Nat.lt_min.mpr ⟨hn, Nat.succ_pos k⟩

/-- The socket of a connection to a controller. -/
def Controller.net : Net Controller where
  send := Controller.send
  recv := Controller.recv
  close c := { c with incoming := [], segments := [] }
  invalidSocket := { memory := fun _ _ => false }
  recv_le := by
    intro c n bytes h
    rw [Controller.recv] at h
    by_cases hnil : c.incoming = []
    · rw [if_pos hnil] at h
      cases h
    · rw [if_neg hnil] at h
      obtain rfl := Option.some.inj h
      exact Nat.le_trans (List.length_take_le _ _) (c.segment_le n)

/-! ## One exchange -/

/-- What receiving and closing leave as it is. -/
def Controller.view (c : Controller) : Memory × List Link := (c.memory, c.links)

/-- The controller is a stream. -/
theorem Controller.net_streams : Controller.net.Streams Controller.incoming Controller.view where
  recv_none c n h := by
    show (Controller.recv c n).1 = _
    rw [Controller.recv, if_pos h]
  recv_part c n hn h := by
    have hpart : c.incoming.take (c.segment n) ≠ [] := by
      rw [ne_eq, List.take_eq_nil_iff, not_or]
      exact ⟨(c.segment_pos hn).ne', h⟩
    refine ⟨_, hpart, ?_⟩
    show (Controller.recv c n).1 = _ ∧ _ = _ ++ (Controller.recv c n).2.incoming
    rw [Controller.recv, if_neg h]
    exact ⟨rfl, (List.take_append_drop _ _).symm⟩
  recv_view c n := by
    show Controller.view (Controller.recv c n).2 = _
    rw [Controller.recv]
    split
    · rfl
    · rfl

/-- A reply as `S7_TcpExchange` looks at it: its version, its length, and enough of it to tell. -/
structure Reply (reply : List UInt8) : Prop where
  head : ∃ rest, reply = 3 :: 0 :: UInt8.ofNat (reply.length / 256) :: UInt8.ofNat reply.length :: rest
  fits : reply.length ≤ buffSize

/-- A frame that answers is a reply, with its data behind 21 bytes. -/
theorem replyFrame_reply (request : List UInt8) (function : UInt8) {data : List UInt8}
    (h : data.length ≤ 979) :
    Reply (replyFrame request function data) ∧
      (replyFrame request function data).length = 21 + data.length := by
  have hlen : (replyFrame request function data).length = 21 + data.length := by
    rw [replyFrame]
    simp only [List.length_append, length_toBE, List.length_cons, List.length_nil]
  refine ⟨⟨?_, ?_⟩, hlen⟩
  · rw [hlen]
    exact ⟨_, by simp only [replyFrame, toBE, Nat.pow_one, Nat.pow_zero, Nat.div_one,
      List.cons_append, List.nil_append]; rfl⟩
  · rw [hlen, buffSize]
    omega

/-- A reply is a frame, and passes the tests. -/
theorem Reply.frame {reply : List UInt8} (h : Reply reply) :
    ∃ frame : Frame, frame.bytes = reply ∧ frame.Accepted := by
  obtain ⟨⟨rest, hrest⟩, hfits⟩ := h
  have hfour : 4 ≤ reply.length := by
    rw [hrest]
    exact Nat.le_add_left 4 _
  have hlength : tpktLength reply = reply.length := by
    have hbytes : tpktLength reply = (UInt8.ofNat (reply.length / 256)).toNat <<< 8 +
        (UInt8.ofNat reply.length).toNat := by
      conv_lhs => rw [hrest]
      rfl
    rw [hbytes, UInt8.toNat_ofNat', UInt8.toNat_ofNat', Nat.shiftLeft_eq]
    rw [buffSize] at hfits
    omega
  have hversion : reply.getD 0 0 = 3 := by
    rw [hrest]
    rfl
  exact ⟨⟨reply, hfour, hlength⟩, rfl, hversion, hfits⟩

/-- The first segment of a reply has at least the four bytes that are looked at. -/
theorem recv_first (m : Memory) (links : List Link) (segments : List Nat) {reply : List UInt8}
    (hfour : 4 ≤ reply.length) :
    4 ≤ ((Controller.net.recv ⟨m, links, reply, firstSegment segments⟩ buffSize).1.getD []).length := by
  have hne : reply ≠ [] := List.length_pos_iff.mp (by omega)
  show 4 ≤ ((Controller.recv _ _).1.getD []).length
  rw [Controller.recv, if_neg hne]
  simp only [Option.getD_some, List.length_take]
  refine Nat.le_min.mpr ⟨?_, hfour⟩
  cases segments with
  | nil => exact Nat.le_of_ble_eq_true rfl
  | cons k segments => exact Nat.le_min.mpr ⟨Nat.le_of_ble_eq_true rfl, Nat.le_add_left 4 k⟩

/-- The link is up: the reply is in the buffer. -/
theorem tcpExchange_up {plc : S7Plc Controller} {request : List UInt8} {r : Request}
    {segments : List Nat} (hnext : plc.sock.next = .up segments)
    (hparse : parseRequest request = some r) (hreply : Reply (r.reply plc.sock.memory request)) :
    ∃ sock, plc.tcpExchange Controller.net request =
        (((r.reply plc.sock.memory request).length : Int), { plc with
          sock := sock, buff := overwrite plc.buff 0 (r.reply plc.sock.memory request) }) ∧
      sock.memory = r.apply plc.sock.memory ∧ sock.links = plc.sock.links.tail := by
  have hcarry : plc.sock.carryOut request =
      (r.apply plc.sock.memory, r.reply plc.sock.memory request) := by
    rw [Controller.carryOut, hparse]
  generalize r.reply plc.sock.memory request = reply at *
  have hsend : Controller.net.send plc.sock request = ((request.length : Int),
      ⟨r.apply plc.sock.memory, plc.sock.links.tail, reply, firstSegment segments⟩) := by
    show Controller.send _ _ = _
    simp only [Controller.send, hcarry, hnext]
  obtain ⟨frame, rfl, hframe⟩ := hreply.frame
  have houtcome := tcpExchange_outcome Controller.net_streams hsend frame (List.prefix_refl _)
  obtain ⟨sock, hexchange, -, hview⟩ :=
    houtcome.received hframe rfl (recv_first _ _ segments frame.four_le)
  obtain ⟨hmemory, hlinks⟩ := Prod.mk.inj hview
  exact ⟨sock, hexchange, hmemory, hlinks⟩

/-- The link carries the request to the controller. -/
def Link.carries : Link → Bool
  | .down => false
  | _ => true

/-- The link is not up: the connection is closed, whether or not the request was carried out. -/
theorem tcpExchange_down {plc : S7Plc Controller} {request : List UInt8} {r : Request}
    (hnext : ∀ segments, plc.sock.next ≠ .up segments) (hparse : parseRequest request = some r)
    (hreply : Reply (r.reply plc.sock.memory request)) :
    ∃ sock buff, plc.tcpExchange Controller.net request =
        (0, { plc with sock := sock, buff := buff, state := 0 }) ∧
      sock.memory = (if plc.sock.next.carries then r.apply plc.sock.memory else plc.sock.memory) ∧
      sock.links = plc.sock.links.tail := by
  have hcarry : plc.sock.carryOut request =
      (r.apply plc.sock.memory, r.reply plc.sock.memory request) := by
    rw [Controller.carryOut, hparse]
  generalize r.reply plc.sock.memory request = reply at *
  cases hlink : plc.sock.next with
  | up segments => exact absurd hlink (hnext segments)
  | down =>
    have hsend : Controller.net.send plc.sock request =
        (-1, { plc.sock with links := plc.sock.links.tail }) := by
      show Controller.send _ _ = _
      simp only [Controller.send, hlink]
    have hne : (-1 : Int) ≠ request.length := by omega
    simp only [S7Plc.tcpExchange, hsend, ne_eq, hne, not_false_eq_true, if_true, S7Plc.sockClose]
    exact ⟨_, _, rfl, rfl, rfl⟩
  | lost arrived =>
    have hsend : Controller.net.send plc.sock request = ((request.length : Int),
        ⟨r.apply plc.sock.memory, plc.sock.links.tail, reply.dropLast.take arrived, []⟩) := by
      show Controller.send _ _ = _
      simp only [Controller.send, hcarry, hlink]
    have hpart : reply.dropLast.take arrived <+: reply :=
      (List.take_prefix _ _).trans (List.dropLast_prefix _)
    obtain ⟨frame, rfl, hframe⟩ := hreply.frame
    have hshort : frame.bytes.dropLast.take arrived ≠ frame.bytes := by
      intro heq
      have hlen := congrArg List.length heq
      have hfour := frame.four_le
      rw [List.length_take, List.length_dropLast] at hlen
      omega
    obtain ⟨sock, buff, hexchange⟩ :=
      (tcpExchange_outcome Controller.net_streams hsend frame hpart).cut hframe hshort
    have hview := tcpExchange_view Controller.net_streams (fun _ => rfl) plc request
    rw [hexchange, hsend] at hview
    obtain ⟨hmemory, hlinks⟩ := Prod.mk.inj hview
    exact ⟨_, buff, hexchange, hmemory, hlinks⟩

/-! ## One write -/

def Link.isUp : Link → Bool
  | .up _ => true
  | _ => false

/-- A write that is pending stays so until it is carried out. -/
theorem S7Tag.stays_pending {tag : S7Tag} (h : tag.writePending = true) :
    ({ tag with writePending := true } : S7Tag) = tag := by
  cases tag
  exact congrArg _ h.symm

/-- A pending write is carried out when the link carries it, and settled when the link is up. -/
theorem s7SendTag_job {plc : S7Plc Controller} {tag : S7Tag} {area : Area} (h : tag.Sized)
    (hmem : tag.mem = some area) (hpending : tag.writePending = true) (hstate : plc.state = 2) :
    ∃ sock buff, plc.s7SendTag Controller.net tag =
        (if plc.sock.next.isUp then 0 else 1,
          { plc with sock := sock, buff := buff, state := if plc.sock.next.isUp then 2 else 0 },
          { tag with writePending := !plc.sock.next.isUp }) ∧
      sock.memory = (if plc.sock.next.carries then (tag.job area).apply plc.sock.memory
        else plc.sock.memory) ∧
      sock.links = plc.sock.links.tail := by
  obtain ⟨_, hparse⟩ := parse_writeRequest h area
  have hreply : (tag.job area).reply plc.sock.memory (writeRequest area tag) =
      replyFrame (writeRequest area tag) 5 [0xff] := by
    rw [S7Tag.job]
    by_cases hbit : tag.bitIdx = -1
    · rw [if_pos hbit]
      rfl
    · rw [if_neg hbit]
      rfl
  obtain ⟨hwell, hlen⟩ := replyFrame_reply (writeRequest area tag) 5
    (show ([0xff] : List UInt8).length ≤ 979 by decide)
  rw [← hreply] at hwell
  have hsame : ({ plc with buff := overwrite plc.buff 0 (writeRequest area tag) } :
      S7Plc Controller).sock = plc.sock := rfl
  unfold S7Plc.s7SendTag
  simp only [hpending, Bool.not_true, Bool.false_eq_true, if_false, hmem, hstate, ne_eq, not_true]
  cases hlink : plc.sock.next with
  | up segments =>
    rw [← hsame] at hlink
    obtain ⟨sock, hexchange, hmemory, hlinks⟩ := tcpExchange_up hlink hparse hwell
    simp only [hstate, hreply, hlen] at hexchange
    rw [hexchange]
    exact ⟨sock, _, rfl, hmemory, hlinks⟩
  | _ =>
    have hnot : ∀ segments, ({ plc with buff := overwrite plc.buff 0 (writeRequest area tag) } :
        S7Plc Controller).sock.next ≠ .up segments := by
      intro segments hup
      rw [hsame, hlink] at hup
      cases hup
    obtain ⟨sock, buff, hexchange, hmemory, hlinks⟩ := tcpExchange_down hnot hparse hwell
    rw [hsame, hlink] at hmemory
    simp only [hstate] at hexchange
    rw [hexchange]
    refine ⟨sock, buff, ?_, hmemory, hlinks⟩
    conv_lhs => rw [← S7Tag.stays_pending hpending]
    simp only [hmem]
    rfl

/-! ## Reading a block -/

/-- A block whose tags all denote addresses, and whose image fits it unless it is to be resized. -/
structure S7MemoryBlock.Valid (mem : S7MemoryBlock) : Prop where
  start_nonneg : 0 ≤ mem.start
  quantity_nonneg : 0 ≤ mem.quantity
  end_le : mem.start + mem.quantity ≤ 65536
  image : mem.resized = false → mem.memImage.length = mem.quantity.toNat

/-- Registering a tag that denotes an address keeps its block valid. -/
theorem S7MemoryBlock.Valid.extend {mem : S7MemoryBlock} (h : mem.Valid) {tag : S7Tag} {area : Area}
    (htag : tag.Valid area) : (mem.extend tag).Valid := by
  obtain ⟨hstart, hquantity, hend, himage⟩ := h
  have hidx := htag.idx_nonneg
  have hlast := htag.end_le
  have hint : tag.endIdx = tag.idx + tag.byteQty := int32_eq_self (by omega) (by omega)
  unfold S7MemoryBlock.extend
  simp only [hint]
  by_cases hlow : tag.idx < mem.start
  · simp only [if_pos hlow]
    rw [int32_eq_self (by omega) (by omega), int32_eq_self (by omega) (by omega)]
    by_cases hhigh : tag.idx + mem.quantity < tag.idx + tag.byteQty
    · rw [if_pos hhigh]
      exact ⟨hidx, by simp only; omega, by simp only; omega, fun hno => nomatch hno⟩
    · rw [if_neg hhigh]
      exact ⟨hidx, hquantity, by simp only; omega, fun hno => nomatch hno⟩
  · simp only [if_neg hlow]
    rw [int32_eq_self (by omega) (by omega), int32_eq_self (by omega) (by omega)]
    by_cases hhigh : mem.start + mem.quantity < tag.idx + tag.byteQty
    · rw [if_pos hhigh]
      exact ⟨hstart, by simp only; omega, by simp only; omega, fun hno => nomatch hno⟩
    · rw [if_neg hhigh]
      exact ⟨hstart, hquantity, hend, himage⟩

/-- One chunk: the controller's bytes, at their place in the image. -/
theorem s7ReadChunk_up {plc : S7Plc Controller} {area : Area} {start count : Nat}
    (hnext : plc.sock.next.isUp = true) (hstart : start < 65536) (hcount : count ≤ 975) :
    ∃ sock buff, plc.s7ReadChunk Controller.net area start count =
        ({ plc with sock := sock, buff := buff } : S7Plc Controller).setBlock area
          { plc.block area with
            memImage := overwrite (plc.block area).memImage
              ((start : Int) - (plc.block area).start).toNat
              (window (plc.sock.memory area) start count) } ∧
      sock.memory = plc.sock.memory ∧ sock.links = plc.sock.links.tail := by
  cases hlink : plc.sock.next with
  | down =>
    rw [hlink] at hnext
    cases hnext
  | lost arrived =>
    rw [hlink] at hnext
    cases hnext
  | up segments =>
    have hdata : ([0xff, 4] ++ toBE 2 (8 * count) ++ window (plc.sock.memory area) start count).length =
        4 + count := by
      simp only [List.length_append, length_toBE, length_window, List.length_cons, List.length_nil]
    obtain ⟨hwell, hlen⟩ := replyFrame_reply (readRequest area start count) 4
      (show ([0xff, 4] ++ toBE 2 (8 * count) ++
        window (plc.sock.memory area) start count).length ≤ 979 by omega)
    rw [hdata] at hlen
    obtain ⟨sock, hexchange, hmemory, hlinks⟩ := tcpExchange_up hlink
      (parse_readRequest hstart (show count < 65536 by omega)) hwell
    have hbytes : ((overwrite plc.buff 0 ((Request.read area start count).reply plc.sock.memory
        (readRequest area start count))).drop 25).take count =
        window (plc.sock.memory area) start count := by
      obtain ⟨back, hback⟩ : ∃ back, (overwrite plc.buff 0 ((Request.read area start count).reply
          plc.sock.memory (readRequest area start count))).drop 25 =
          window (plc.sock.memory area) start count ++ back := ⟨_, rfl⟩
      rw [hback, List.take_left' (length_window _ _ _)]
    have hlength : ((Request.read area start count).reply plc.sock.memory
        (readRequest area start count)).length = 25 + count := by
      show (replyFrame _ _ _).length = _
      omega
    unfold S7Plc.s7ReadChunk
    rw [hexchange, hlength]
    simp only
    rw [if_pos ⟨by omega, rfl⟩, Int.toNat_natCast]
    refine ⟨sock, overwrite plc.buff 0 ((Request.read area start count).reply plc.sock.memory
      (readRequest area start count)), ?_, hmemory, hlinks⟩
    rw [hbytes]
    cases area <;> rfl

/-- A link that is up is up next. -/
theorem next_of_links {c : Controller} (h : ∀ l ∈ c.links, l.isUp = true) : c.next.isUp = true := by
  unfold Controller.next
  cases hlinks : c.links with
  | nil => rfl
  | cons l links => exact h l (by rw [hlinks]; exact List.mem_cons_self)

/-- A block stored as it is changes nothing. -/
theorem S7Plc.setBlock_block (plc : S7Plc Controller) (a : Area) : plc.setBlock a (plc.block a) = plc := by
  cases a <;> rfl

/-- The chunk loop, from the place where `front` bytes are read and `left` are not. -/
theorem readChunks_up {fuel front left start : Nat} {old : List UInt8} {plc : S7Plc Controller}
    {area : Area} (hstart : (plc.block area).start = start)
    (himage : (plc.block area).memImage = window (plc.sock.memory area) start front ++ old)
    (hold : old.length = left) (hend : start + front + left ≤ 65536)
    (hpdu : 25 < plc.pduMaxLength) (hfits : min (plc.pduMaxLength - 25) (left : Int) ≤ 975)
    (hup : ∀ l ∈ plc.sock.links, l.isUp = true) (hfuel : left ≤ fuel) :
    ∃ sock buff, S7Plc.readChunks Controller.net area start (front + left : Nat) fuel
        (start + front : Nat) (min (plc.pduMaxLength - 25) left) plc =
        some (({ plc with sock := sock, buff := buff } : S7Plc Controller).setBlock area
          { plc.block area with memImage := window (plc.sock.memory area) start (front + left) }) ∧
      sock.memory = plc.sock.memory ∧ ∀ l ∈ sock.links, l.isUp = true := by
  induction fuel generalizing front left old plc with
  | zero =>
    obtain rfl : left = 0 := by omega
    obtain rfl := List.length_eq_zero_iff.mp hold
    rw [List.append_nil] at himage
    refine ⟨plc.sock, plc.buff, ?_, rfl, hup⟩
    rw [S7Plc.readChunks, if_pos (by omega), Nat.add_zero, ← himage]
    exact congrArg some (plc.setBlock_block area).symm
  | succ fuel ih =>
    rcases Nat.eq_zero_or_pos left with rfl | hleft
    · obtain rfl := List.length_eq_zero_iff.mp hold
      rw [List.append_nil] at himage
      refine ⟨plc.sock, plc.buff, ?_, rfl, hup⟩
      rw [S7Plc.readChunks, if_pos (by omega), Nat.add_zero, ← himage]
      exact congrArg some (plc.setBlock_block area).symm
    · obtain ⟨q, hq⟩ := Int.eq_ofNat_of_zero_le (show 0 ≤ min (plc.pduMaxLength - 25) (left : Int) by
        omega)
      obtain ⟨sock, buff, hchunk, hmemory, hlinks⟩ := s7ReadChunk_up
        (next_of_links hup) (show start + front < 65536 by omega) (show q ≤ 975 by omega)
      have hlater : ∀ l ∈ sock.links, l.isUp = true := by
        rw [hlinks]
        exact fun l hl => hup l (List.mem_of_mem_tail hl)
      have hoff : (((start + front : Nat) : Int) - (plc.block area).start).toNat = front := by
        rw [hstart]
        omega
      have hnew : overwrite (plc.block area).memImage front
          (window (plc.sock.memory area) (start + front) q) =
          window (plc.sock.memory area) start (front + q) ++ old.drop q := by
        rw [himage, overwrite, List.take_left' (length_window _ _ _), length_window, window_append,
          List.drop_append, List.drop_of_length_le (by rw [length_window]; omega), List.nil_append,
          length_window, Nat.add_sub_cancel_left]
      rw [hoff, hnew] at hchunk
      have hblock : ∀ image, ((({ plc with sock := sock, buff := buff } : S7Plc Controller).setBlock
          area { plc.block area with memImage := image }).block area) =
          { plc.block area with memImage := image } := fun image => by
        rw [S7Plc.block_setBlock, if_pos rfl]
      obtain ⟨sock', buff', hrest, hmemory', hup'⟩ := ih
        (show (((({ plc with sock := sock, buff := buff } : S7Plc Controller).setBlock area
          { plc.block area with
            memImage := window (plc.sock.memory area) start (front + q) ++ old.drop q }).block
              area).start) = (start : Int) by rw [hblock]; exact hstart)
        (by rw [hblock, S7Plc.setBlock_sock, hmemory])
        (show (old.drop q).length = left - q by rw [List.length_drop, hold])
        (by omega) (by rw [S7Plc.setBlock_pduMaxLength]; exact hpdu)
        (by rw [S7Plc.setBlock_pduMaxLength]; simp only; omega)
        (by rw [S7Plc.setBlock_sock]; exact hlater) (by omega)
      refine ⟨sock', buff', ?_, ?_, hup'⟩
      · rw [S7Plc.readChunks, hq, if_neg (by omega), hchunk]
        simp only [S7Plc.setBlock_pduMaxLength] at hrest ⊢
        rw [int32_eq_self (by omega) (by omega), int32_eq_self (by omega) (by omega)]
        rw [show ((start + front : Nat) : Int) + (q : Int) = ((start + (front + q) : Nat) : Int) by omega,
          show ((front + left : Nat) : Int) - ((start + (front + q) : Nat) : Int) + (start : Int) =
            ((left - q : Nat) : Int) by omega,
          show front + left = front + q + (left - q) by omega]
        rw [hrest, hblock]
        simp only [S7Plc.setBlock_sock, hmemory]
        cases area <;> rfl
      · rw [hmemory', S7Plc.setBlock_sock, hmemory]

/-- A block read over a link that stays up, in chunks whose replies fit in the buffer: the image is
the controller's memory. -/
theorem s7ReadBlock_up {plc : S7Plc Controller} {area : Area} {fuel : Nat}
    (hblock : (plc.block area).Valid) (hquantity : (plc.block area).quantity ≠ 0)
    (hpdu : 25 < plc.pduMaxLength)
    (hfits : min (plc.pduMaxLength - 25) (plc.block area).quantity ≤ 975)
    (hup : ∀ l ∈ plc.sock.links, l.isUp = true) (hfuel : (plc.block area).quantity.toNat ≤ fuel) :
    ∃ sock buff, plc.s7ReadBlock Controller.net fuel area =
        some (({ plc with sock := sock, buff := buff } : S7Plc Controller).setBlock area
          { plc.block area with
            resized := false
            memImage := window (plc.sock.memory area) (plc.block area).start.toNat
              (plc.block area).quantity.toNat }) ∧
      sock.memory = plc.sock.memory ∧ ∀ l ∈ sock.links, l.isUp = true := by
  obtain ⟨hstart, hnonneg, hend, himage⟩ := hblock
  obtain ⟨s, hs⟩ := Int.eq_ofNat_of_zero_le hstart
  obtain ⟨n, hn⟩ := Int.eq_ofNat_of_zero_le hnonneg
  generalize hmem : plc.block area = mem at *
  -- the block as the snapshot leaves it, with an image of its size
  obtain ⟨image, hlen, hsnapshot⟩ : ∃ image : List UInt8, image.length = n ∧
      (if mem.resized then
        { mem with memImage := resize mem.memImage mem.quantity.toNat, resized := false }
        else mem) = { mem with memImage := image, resized := false } := by
    cases hresized : mem.resized with
    | true =>
      refine ⟨resize mem.memImage mem.quantity.toNat, ?_, rfl⟩
      rw [resize, List.length_append, List.length_take, List.length_replicate]
      omega
    | false =>
      refine ⟨mem.memImage, by rw [himage hresized, hn, Int.toNat_natCast], ?_⟩
      rw [if_neg Bool.false_ne_true, ← hresized]
  have hblock' : ((plc.setBlock area { mem with memImage := image, resized := false }).block area) =
      { mem with memImage := image, resized := false } := by
    rw [S7Plc.block_setBlock, if_pos rfl]
  obtain ⟨sock, buff, hchunks, hmemory, hlinks⟩ := readChunks_up
    (show ((plc.setBlock area { mem with memImage := image, resized := false }).block area).start =
      (s : Int) by rw [hblock']; exact hs)
    (show _ = window ((plc.setBlock area
      { mem with memImage := image, resized := false }).sock.memory area) s 0 ++ image by
        rw [hblock']; rfl)
    hlen (show s + 0 + n ≤ 65536 by omega) (by rw [S7Plc.setBlock_pduMaxLength]; exact hpdu)
    (by rw [S7Plc.setBlock_pduMaxLength, ← hn]; exact hfits)
    (by rw [S7Plc.setBlock_sock]; exact hup) (show n ≤ fuel by omega)
  refine ⟨sock, buff, ?_, ?_, hlinks⟩
  · rw [S7Plc.s7ReadBlock]
    simp only [hmem]
    rw [if_neg hquantity, hsnapshot]
    rw [hblock'] at hchunks
    simp only [S7Plc.setBlock_pduMaxLength, S7Plc.setBlock_sock, Nat.zero_add, Nat.add_zero, hs,
      hn] at hchunks ⊢
    rw [hchunks, Int.toNat_natCast, Int.toNat_natCast]
    cases area <;> rfl
  · rw [hmemory, S7Plc.setBlock_sock]

end OipComms.S7
