import OipComms.S7.Exchange

/-!
# A connection as a byte stream

The peer answers every request it receives with some bytes, and the replies follow each other on one
stream, which the receiver sees in segments of any sizes. Whether a request leaves, what the reply
to it is, how much of the reply arrives before the connection breaks and in which segments is the
environment's choice, an `Answer` for every request. The length in the header of a reply need not be
its size.

`tcpExchange_answers` and `tcpExchange_unanswered` say how an exchange ends on a stream with nothing
but its own reply to come, `tcpExchange_segments` what it makes of a frame cut in pieces.
-/

namespace OipComms.S7

open Slice

/-- How a request fares: whether it leaves, the reply to it, how many bytes of the reply arrive
before the connection breaks (all of them, when there are no more), and the sizes of the segments,
each less one. -/
structure Answer where
  leaves : Bool := true
  reply : List UInt8
  arrives : Nat
  cuts : List Nat := []

/-- The bytes of a reply that arrive. -/
def Answer.arrived (a : Answer) : List UInt8 := a.reply.take a.arrives

/-- One connection: the bytes that can still be received, and what becomes of the requests still to
come. A connection that has broken brings nothing more. -/
structure Stream where
  isOpen : Bool := false
  broken : Bool := false
  unread : List UInt8 := []
  cuts : List Nat := []
  answers : List Answer := []

/-- The request leaves the socket. -/
def Stream.leaves (s : Stream) : Bool := s.isOpen && s.answers.head?.any Answer.leaves

/-- The answer to the next request, if the peer receives it. -/
def Stream.next (s : Stream) : Option Answer :=
  if s.leaves && !s.broken then s.answers.head? else none

/-- The stream after the peer has answered a request. -/
def Stream.answered (s : Stream) (a : Answer) : Stream :=
  { s with
    unread := s.unread ++ a.arrived
    cuts := a.cuts
    broken := decide (a.arrives < a.reply.length)
    answers := s.answers.tail }

def Stream.send (s : Stream) (request : List UInt8) : Int × Stream :=
  (if s.leaves then request.length else -1,
    match s.next with
    | some a => s.answered a
    | none => { s with answers := s.answers.tail })

/-- How many bytes one `recv` of at most `n` brings, by the sizes of the segments. -/
def segmentSize : List Nat → Nat → Nat
  | [], n => n
  | k :: _, n => min n (k + 1)

/-- The part of `bytes` one `recv` of at most `n` brings. -/
def segment (cuts : List Nat) (n : Nat) (bytes : List UInt8) : List UInt8 :=
  bytes.take (segmentSize cuts n)

def Stream.recv (s : Stream) (n : Nat) : Option (List UInt8) × Stream :=
  if s.unread = [] then (none, s)
  else
    (some (segment s.cuts n s.unread),
      { s with
        unread := s.unread.drop (segment s.cuts n s.unread).length
        cuts := s.cuts.tail })

/-- A segment has at most as many bytes as the receive asks for. -/
theorem segment_length_le (cuts : List Nat) (n : Nat) (bytes : List UInt8) :
    (segment cuts n bytes).length ≤ n := by
  refine Nat.le_trans (List.length_take_le _ _) ?_
  cases cuts with
  | nil => exact Nat.le_refl n
  | cons k cuts => exact Nat.min_le_left _ _

/-- A receive brings something while there is something to come. -/
theorem segment_ne_nil {cuts : List Nat} {n : Nat} {bytes : List UInt8} (hn : 0 < n)
    (hbytes : bytes ≠ []) : segment cuts n bytes ≠ [] := by
  rw [segment, ne_eq, List.take_eq_nil_iff, not_or]
  refine ⟨?_, hbytes⟩
  cases cuts with
  | nil => exact Nat.pos_iff_ne_zero.mp hn
  | cons k cuts => exact Nat.pos_iff_ne_zero.mp (Nat.lt_min.mpr ⟨hn, Nat.succ_pos k⟩)

/-- A segment is the front of what is to come. -/
theorem segment_front (cuts : List Nat) (n : Nat) (bytes : List UInt8) :
    segment cuts n bytes <+: bytes := List.take_prefix _ _

/-- The socket of a connection to a peer. What has not been received is lost when it is closed. -/
def Stream.net : Net Stream where
  send := Stream.send
  recv := Stream.recv
  close s := { s with isOpen := false, unread := [] }
  invalidSocket := {}
  recv_le := by
    intro s n bytes h
    rw [Stream.recv] at h
    by_cases hnil : s.unread = []
    · rw [if_pos hnil] at h
      cases h
    · rw [if_neg hnil] at h
      obtain rfl := Option.some.inj h
      exact segment_length_le _ _ _

/-- What receiving leaves as it is. -/
def Stream.view (s : Stream) : Bool × Bool × List Answer := (s.isOpen, s.broken, s.answers)

/-- A receive brings nothing when nothing is to come. -/
theorem Stream.recv_none {s : Stream} (n : Nat) (h : s.unread = []) :
    Stream.net.recv s n = (none, s) := by
  show Stream.recv s n = _
  rw [Stream.recv, if_pos h]

/-- A receive takes a segment off what is to come. -/
theorem Stream.recv_some {s : Stream} (n : Nat) (h : s.unread ≠ []) :
    Stream.net.recv s n = (some (segment s.cuts n s.unread),
      { s with
        unread := s.unread.drop (segment s.cuts n s.unread).length
        cuts := s.cuts.tail }) := by
  show Stream.recv s n = _
  rw [Stream.recv, if_neg h]

/-- The peer is a stream. -/
theorem Stream.net_streams : Stream.net.Streams Stream.unread Stream.view where
  recv_none s n h := by rw [Stream.recv_none n h]
  recv_part s n hn h := by
    refine ⟨_, segment_ne_nil hn h, by rw [Stream.recv_some n h], ?_⟩
    rw [Stream.recv_some n h]
    exact List.prefix_iff_eq_append.mp (segment_front s.cuts n s.unread) |>.symm
  recv_view s n := by
    by_cases h : s.unread = []
    · rw [Stream.recv_none n h]
    · rw [Stream.recv_some n h]
      rfl

/-- An answer leaves the peer. -/
theorem Stream.next_leaves {s : Stream} {a : Answer} (h : s.next = some a) : s.leaves = true := by
  cases hleaves : s.leaves with
  | true => rfl
  | false =>
    rw [Stream.next, hleaves] at h
    cases h

/-! ## The exchange of a request -/

/-- The first segment of what arrives of a reply. -/
def Answer.first (a : Answer) : List UInt8 := segment a.cuts buffSize a.arrived

/-- A request the peer answers, with nothing before the reply on the stream. -/
theorem Stream.send_next {s : Stream} (request : List UInt8) {a : Answer} (hunread : s.unread = [])
    (hnext : s.next = some a) :
    Stream.net.send s request = ((request.length : Int), s.answered a) ∧
      (s.answered a).unread = a.arrived ∧
      ((Stream.net.recv (s.answered a) buffSize).1.getD []) = a.first := by
  have hcoming : (s.answered a).unread = a.arrived := by
    show s.unread ++ a.arrived = _
    rw [hunread, List.nil_append]
  refine ⟨?_, hcoming, ?_⟩
  · show Stream.send s request = _
    rw [Stream.send, if_pos (Stream.next_leaves hnext), hnext]
  · by_cases hnil : a.arrived = []
    · rw [Stream.recv_none _ (hcoming.trans hnil), Answer.first, hnil, segment, List.take_nil]
      rfl
    · rw [Stream.recv_some _ (hcoming ▸ hnil), hcoming]
      rfl

/-- The exchange of a request to which the reply is a frame. -/
theorem tcpExchange_answered {plc : S7Plc Stream} (request : List UInt8) {a : Answer} {frame : Frame}
    (hunread : plc.sock.unread = []) (hnext : plc.sock.next = some a) (hframe : a.reply = frame.bytes) :
    Outcome Stream.net Stream.unread Stream.view plc (plc.sock.answered a) frame a.arrived a.first
      (plc.tcpExchange Stream.net request) := by
  obtain ⟨hsend, hcoming, hfirst⟩ := Stream.send_next request hunread hnext
  have houtcome := tcpExchange_outcome Stream.net_streams hsend frame
    (hcoming ▸ hframe ▸ List.take_prefix _ _)
  rwa [hfirst, hcoming] at houtcome

/-- A frame that passes the tests and arrives whole behind a whole header is received. -/
theorem tcpExchange_received {plc : S7Plc Stream} (request : List UInt8) {a : Answer} {frame : Frame}
    (hunread : plc.sock.unread = []) (hnext : plc.sock.next = some a) (hframe : a.reply = frame.bytes)
    (hreply : frame.Accepted) (harrived : a.arrived = frame.bytes) (hfirst : 4 ≤ a.first.length) :
    ∃ sock, plc.tcpExchange Stream.net request = ((frame.bytes.length : Int),
        { plc with sock := sock, buff := overwrite plc.buff 0 frame.bytes }) ∧
      sock.unread = [] ∧ sock.view = (plc.sock.answered a).view :=
  (tcpExchange_answered request hunread hnext hframe).received hreply harrived hfirst

/-- The exchange of a request that is not answered closes the connection. -/
theorem tcpExchange_unanswered {plc : S7Plc Stream} (request : List UInt8)
    (hunread : plc.sock.unread = []) (hnext : plc.sock.next = none) :
    ∃ sock buff, plc.tcpExchange Stream.net request =
      (0, S7Plc.sockClose Stream.net { plc with sock := sock, buff := buff }) := by
  have hsend : Stream.net.send plc.sock request =
      (if plc.sock.leaves then (request.length : Int) else -1,
        { plc.sock with answers := plc.sock.answers.tail }) := by
    show Stream.send plc.sock request = _
    rw [Stream.send, hnext]
  rw [S7Plc.tcpExchange, hsend]
  by_cases hleaves : plc.sock.leaves = true
  · simp only [hleaves, if_true, ne_eq, not_true, if_false]
    rw [Stream.recv_none (s := { plc.sock with answers := plc.sock.answers.tail }) buffSize hunread]
    exact ⟨_, plc.buff, rfl⟩
  · have hlost : (-1 : Int) ≠ request.length := by omega
    simp only [hleaves, hlost, Bool.false_eq_true, if_false, ne_eq, not_false_eq_true, if_true]
    exact ⟨_, plc.buff, rfl⟩

/-! ## A reply of any bytes -/

/-- The ends of the segments still to come, where so many bytes have come. -/
def segmentEnds : Nat → List Nat → List Nat
  | _, [] => []
  | size, k :: cuts => (size + k + 1) :: segmentEnds (size + k + 1) cuts

/-- A segment has at least one byte. -/
theorem lt_of_mem_segmentEnds {size b : Nat} {cuts : List Nat} (h : b ∈ segmentEnds size cuts) :
    size < b := by
  induction cuts generalizing size with
  | nil => cases h
  | cons k cuts ih =>
    rcases List.mem_cons.mp h with rfl | h
    · omega
    · have hnext := ih h
      omega

/-- Nothing comes behind an end at which as much has come as is expected. -/
def NothingBehind (expected total : Nat) (ends : List Nat) : Prop :=
  ∀ b ∈ ends, expected ≤ b → total ≤ b

instance (expected total : Nat) (ends : List Nat) : Decidable (NothingBehind expected total ends) :=
  inferInstanceAs (Decidable (∀ b ∈ ends, _))

/-- Where as much has come as is expected, nothing comes behind it if nothing more comes. -/
theorem nothingBehind_here {expected size : Nat} (hexpected : expected ≤ size)
    (hsize : size ≤ buffSize) (cuts : List Nat) (unread : List UInt8) :
    NothingBehind expected (size + unread.length) (size :: buffSize :: segmentEnds size cuts) ↔
      unread = [] := by
  constructor
  · intro h
    have hhere := h size List.mem_cons_self hexpected
    exact List.length_eq_zero_iff.mp (by omega)
  · rintro rfl b hb -
    rcases List.mem_cons.mp hb with rfl | hb
    · exact Nat.le_refl _
    rcases List.mem_cons.mp hb with rfl | hb
    · exact hsize
    · exact (lt_of_mem_segmentEnds hb).le

/-- An end before as much has come as is expected does not count. -/
theorem nothingBehind_before {expected size : Nat} (h : size < expected) {total : Nat}
    {ends : List Nat} :
    NothingBehind expected total (size :: ends) ↔ NothingBehind expected total ends := by
  rw [NothingBehind, List.forall_mem_cons]
  exact and_iff_right fun hle => absurd h (Nat.not_lt.mpr hle)

/-- A `recv` goes as far as the next end, or as all that comes. -/
theorem nothingBehind_next {expected size : Nat} (hexpected : expected ≤ buffSize)
    (hsize : size ≤ buffSize) (cuts : List Nat) (unread : List UInt8) :
    NothingBehind expected (size + unread.length)
        ((size + (segment cuts (buffSize - size) unread).length) :: buffSize ::
          segmentEnds (size + (segment cuts (buffSize - size) unread).length) cuts.tail) ↔
      NothingBehind expected (size + unread.length) (buffSize :: segmentEnds size cuts) := by
  unfold NothingBehind
  cases cuts with
  | nil =>
    simp only [segment, segmentSize, List.length_take, segmentEnds, List.tail_nil,
      List.forall_mem_cons, List.not_mem_nil, false_implies, implies_true, and_true]
    omega
  | cons k cuts =>
    simp only [segment, segmentSize, List.length_take, segmentEnds, List.tail_cons,
      List.forall_mem_cons]
    by_cases hall : size + k + 1 ≤ buffSize ∧ k + 1 ≤ unread.length
    · have hnext : size + min (min (buffSize - size) (k + 1)) unread.length = size + k + 1 := by
        omega
      rw [hnext]
      exact and_left_comm
    · -- what comes, or the buffer, ends before the segment does
      have hbehind : ∀ b ∈ segmentEnds (size + k + 1) cuts, size + k + 1 < b := fun b hb =>
        lt_of_mem_segmentEnds hb
      constructor
      · rintro ⟨hnext, hfull, -⟩
        refine ⟨hfull, fun hle => ?_, fun b hb hle => ?_⟩
        · omega
        · have hlt := hbehind b hb
          omega
      · rintro ⟨hfull, -, -⟩
        refine ⟨fun hle => ?_, hfull, fun b hb hle => ?_⟩
        · omega
        · have hlt := lt_of_mem_segmentEnds hb
          omega

/-- An exchange that has `front` of a reply in the buffer takes what comes up to the first end at
which enough has come. -/
def TakesEnough (expected : Nat) (base front : List UInt8) (plc : S7Plc Stream)
    (result : Int × S7Plc Stream) : Prop :=
  ∃ taken sock, result = (((front ++ taken).length : Int), { plc with
      sock := sock, buff := overwrite base 0 (front ++ taken) }) ∧
    plc.sock.unread = taken ++ sock.unread ∧ sock.view = plc.sock.view ∧
    (sock.unread = [] ↔ NothingBehind expected (front.length + plc.sock.unread.length)
      (front.length :: buffSize :: segmentEnds front.length plc.sock.cuts))

/-- What has come already is enough. -/
theorem takesEnough_here {expected : Nat} {base front : List UInt8} {plc : S7Plc Stream}
    (hbuff : plc.buff = overwrite base 0 front) (hfront : front.length ≤ buffSize)
    (hle : expected ≤ front.length) :
    TakesEnough expected base front plc ((front.length : Int), plc) := by
  refine ⟨[], plc.sock, ?_, rfl, rfl, (nothingBehind_here hle hfront _ _).symm⟩
  rw [List.append_nil, ← hbuff]

/-- The connection after a `recv` has brought `part` into the buffer at `size`. -/
def S7Plc.stored (plc : S7Plc Stream) (size : Nat) (part : List UInt8) : S7Plc Stream :=
  { plc with
    sock := { plc.sock with
      unread := plc.sock.unread.drop part.length, cuts := plc.sock.cuts.tail }
    buff := overwrite plc.buff size part }

/-- What a `recv` brings continues what is in the buffer. -/
theorem S7Plc.stored_buff {base front : List UInt8} {plc : S7Plc Stream}
    (hbuff : plc.buff = overwrite base 0 front) (part : List UInt8) :
    (plc.stored front.length part).buff = overwrite base 0 (front ++ part) := by
  show overwrite plc.buff _ _ = _
  rw [hbuff, ← Nat.zero_add front.length, overwrite_overwrite (Nat.zero_le _)]

/-- Where more is expected, the exchange takes the next segment and goes on from there. -/
theorem takesEnough_next {expected : Nat} {base front part : List UInt8} {plc : S7Plc Stream}
    {result : Int × S7Plc Stream} (hmore : front.length < expected) (hfits : expected ≤ buffSize)
    (hpart : segment plc.sock.cuts (buffSize - front.length) plc.sock.unread = part)
    (h : TakesEnough expected base (front ++ part) (plc.stored front.length part) result) :
    TakesEnough expected base front plc result := by
  have hparts : part ++ plc.sock.unread.drop part.length = plc.sock.unread :=
    List.prefix_iff_eq_append.mp (hpart ▸ segment_front _ _ _)
  have htotal := congrArg List.length hparts
  rw [List.length_append] at htotal
  have hnext := nothingBehind_next hfits (hmore.le.trans hfits) plc.sock.cuts plc.sock.unread
  rw [hpart] at hnext
  obtain ⟨taken, sock, hresult, hunread, hview, hleft⟩ := h
  refine ⟨part ++ taken, sock, ?_, ?_, hview, ?_⟩
  · rw [← List.append_assoc]
    exact hresult
  · rw [List.append_assoc, ← hunread]
    exact hparts.symm
  · have hsum : (front ++ part).length + (plc.stored front.length part).sock.unread.length =
        front.length + plc.sock.unread.length := by
      show (front ++ part).length + (plc.sock.unread.drop part.length).length = _
      rw [List.length_append, Nat.add_assoc, htotal]
    rw [hleft, hsum, List.length_append, nothingBehind_before hmore]
    exact hnext

/-- The body loop, where enough comes. -/
theorem recvBody_enough {fuel expected : Nat} (base : List UInt8) {front : List UInt8}
    {plc : S7Plc Stream} (hbuff : plc.buff = overwrite base 0 front) (hfits : expected ≤ buffSize)
    (hfront : front.length ≤ buffSize) (hfuel : expected - front.length ≤ fuel)
    (henough : expected ≤ front.length + plc.sock.unread.length) :
    TakesEnough expected base front plc
      (S7Plc.recvBody Stream.net expected fuel front.length plc) := by
  induction fuel generalizing front plc with
  | zero => exact takesEnough_here hbuff hfront (by omega)
  | succ fuel ih =>
    rw [S7Plc.recvBody]
    by_cases hmore : front.length < expected
    · rw [if_pos hmore]
      have hne : plc.sock.unread ≠ [] := by
        intro hnil
        rw [hnil, List.length_nil] at henough
        omega
      rw [Stream.recv_some _ hne]
      have hsome : segment plc.sock.cuts (buffSize - front.length) plc.sock.unread ≠ [] :=
        segment_ne_nil (by omega) hne
      have hle := segment_length_le plc.sock.cuts (buffSize - front.length) plc.sock.unread
      generalize hpart : segment plc.sock.cuts (buffSize - front.length) plc.sock.unread = part at *
      obtain ⟨b, bytes, rfl⟩ := List.exists_cons_of_ne_nil hsome
      rw [List.length_cons] at hle
      have hgrown : (front ++ b :: bytes).length = front.length + (bytes.length + 1) := by
        rw [List.length_append, List.length_cons]
      have hcoming : (plc.stored front.length (b :: bytes)).sock.unread.length =
          plc.sock.unread.length - (bytes.length + 1) := List.length_drop
      have hrest := ih (S7Plc.stored_buff hbuff (b :: bytes)) (by omega) (by omega) (by omega)
      rw [hgrown] at hrest
      exact takesEnough_next hmore hfits hpart hrest
    · rw [if_neg hmore]
      exact takesEnough_here hbuff hfront (Nat.not_lt.mp hmore)

/-- What the header of a reply asks for, if it passes the two tests. -/
def asked (reply : List UInt8) : Nat :=
  if reply.getD 0 0 = 3 ∧ tpktLength reply ≤ buffSize then tpktLength reply else 0

/-- A header asks for no more than the buffer holds. -/
theorem asked_le (reply : List UInt8) : asked reply ≤ buffSize := by
  rw [asked]
  split
  · rename_i hok
    exact hok.2
  · exact Nat.zero_le _

/-- Nothing of a reply comes behind the first end of a segment, or of the buffer, at which as much
has come as its header asks for. -/
def Answer.Drained (a : Answer) : Prop :=
  NothingBehind (asked a.reply) a.arrived.length (buffSize :: segmentEnds 0 a.cuts)

instance (a : Answer) : Decidable a.Drained := inferInstanceAs (Decidable (NothingBehind _ _ _))

/-- What arrives is the first segment and the rest. -/
theorem Answer.first_append (a : Answer) :
    a.first ++ a.arrived.drop a.first.length = a.arrived :=
  List.prefix_iff_eq_append.mp (segment_front a.cuts buffSize a.arrived)

/-- The ends behind the first segment decide whether something is left. -/
theorem Answer.drained_iff_first (a : Answer) :
    NothingBehind (asked a.reply) a.arrived.length
      (a.first.length :: buffSize :: segmentEnds a.first.length a.cuts.tail) ↔ a.Drained := by
  have hnext := nothingBehind_next (asked_le a.reply) (Nat.zero_le _) a.cuts a.arrived
  simp only [Nat.zero_add, Nat.sub_zero] at hnext
  exact hnext

/-- Where the header asks for nothing, what is behind the first segment is left. -/
theorem Answer.drained_of_unasked {a : Answer} (hasked : asked a.reply = 0) :
    a.arrived.drop a.first.length = [] ↔ a.Drained := by
  have hsize : a.first.length ≤ buffSize := segment_length_le _ _ _
  have hhere := nothingBehind_here (Nat.zero_le _) hsize a.cuts.tail
    (a.arrived.drop a.first.length)
  have htotal := congrArg List.length a.first_append
  rw [List.length_append] at htotal
  rw [htotal] at hhere
  rw [← hhere, ← a.drained_iff_first, hasked]

/-- How the exchange of a request ends that the peer answers with `a`. -/
inductive Exchanged (plc : S7Plc Stream) (a : Answer) : Int × S7Plc Stream → Prop
  | closed (sock : Stream) (buff : List UInt8)
    (hcause : a.first.length < 4 ∨ a.arrived.length < asked a.reply) :
    Exchanged plc a (0, S7Plc.sockClose Stream.net { plc with sock := sock, buff := buff })
  | refused (sock : Stream) (buff : List UInt8) (hfirst : 4 ≤ a.first.length)
    (hleft : sock.unread = [] ↔ a.Drained) :
    Exchanged plc a (0, { plc with sock := sock, buff := buff })
  | received (sock : Stream) (taken : List UInt8) (hfirst : 4 ≤ a.first.length)
    (htaken : a.arrived = taken ++ sock.unread) (hleft : sock.unread = [] ↔ a.Drained) :
    Exchanged plc a ((taken.length : Int),
      { plc with sock := sock, buff := overwrite plc.buff 0 taken })

/-- The body loop behind a header that passes the tests. -/
theorem recvBody_answers {plc headed : S7Plc Stream} {a : Answer} (hfirst : 4 ≤ a.first.length)
    (hbuff : headed.buff = overwrite plc.buff 0 a.first)
    (hunread : headed.sock.unread = a.arrived.drop a.first.length)
    (hcuts : headed.sock.cuts = a.cuts.tail)
    (hplc : { plc with sock := headed.sock, buff := headed.buff } = headed) :
    Exchanged plc a (S7Plc.recvBody Stream.net (asked a.reply) (asked a.reply - a.first.length)
      a.first.length headed) := by
  have hsize : a.first.length ≤ buffSize := segment_length_le _ _ _
  have htotal := congrArg List.length a.first_append
  rw [List.length_append, ← hunread] at htotal
  by_cases henough : asked a.reply ≤ a.arrived.length
  · obtain ⟨taken, sock, hbody, hleft, -, hdrained⟩ := recvBody_enough plc.buff hbuff
      (asked_le a.reply) hsize (Nat.le_refl _) (henough.trans htotal.ge)
    rw [hbody, ← hplc]
    refine .received sock (a.first ++ taken) hfirst ?_ ?_
    · rw [List.append_assoc, ← hleft, hunread, a.first_append]
    · rw [hdrained, htotal, hcuts, a.drained_iff_first]
  · rw [Nat.not_le] at henough
    obtain ⟨sock, buff, hbody, -⟩ := recvBody_short Stream.net_streams a.first.length headed
      (htotal.le.trans_lt henough) (asked_le a.reply)
      (show headed.sock.unread.length < asked a.reply - a.first.length by omega)
    rw [hbody, ← hplc]
    exact .closed sock buff (.inr henough)

/-- How the exchange of a request the peer answers ends, whatever the reply. -/
theorem tcpExchange_answers {plc : S7Plc Stream} (request : List UInt8) {a : Answer}
    (hunread : plc.sock.unread = []) (hnext : plc.sock.next = some a) :
    Exchanged plc a (plc.tcpExchange Stream.net request) := by
  obtain ⟨hsend, hcoming, hfirst⟩ := Stream.send_next request hunread hnext
  have hcuts : (plc.sock.answered a).cuts = a.cuts := rfl
  generalize plc.sock.answered a = sent at hsend hcoming hfirst hcuts
  simp only [S7Plc.tcpExchange, hsend, ne_eq, not_true, if_false]
  by_cases hnil : sent.unread = []
  · rw [Stream.recv_none _ hnil] at hfirst ⊢
    rw [Option.getD_none] at hfirst
    exact .closed sent plc.buff (.inl (hfirst ▸ (by decide : 0 < 4)))
  have hrecv : Stream.net.recv sent buffSize = (some a.first,
      { sent with unread := a.arrived.drop a.first.length, cuts := a.cuts.tail }) := by
    rw [Stream.recv_some _ hnil, hcuts, hcoming]
    rfl
  rw [hrecv]
  simp only
  by_cases hshort : a.first.length < 4
  · rw [if_pos hshort]
    exact .closed _ _ (.inl hshort)
  rw [if_neg hshort]
  rw [Nat.not_lt] at hshort
  -- the header is in the buffer, whatever is in the rest of it
  have hprefix : a.first <+: a.reply :=
    (segment_front a.cuts buffSize a.arrived).trans (List.take_prefix a.arrives a.reply)
  obtain ⟨hversion, hlength⟩ := header_overwrite plc.buff hprefix hshort
  rw [tpktLength] at hlength
  rw [hversion, hlength]
  by_cases hthree : a.reply.getD 0 0 = 3
  · rw [if_neg (not_not.mpr hthree)]
    by_cases hlong : buffSize < tpktLength a.reply
    · rw [if_pos hlong]
      have hunasked : asked a.reply = 0 := if_neg fun hok => Nat.not_lt.mpr hok.2 hlong
      exact .refused _ _ hshort (Answer.drained_of_unasked hunasked)
    · rw [if_neg hlong]
      have hasked : asked a.reply = tpktLength a.reply := if_pos ⟨hthree, Nat.not_lt.mp hlong⟩
      rw [← hasked]
      exact recvBody_answers hshort rfl rfl rfl rfl
  · rw [if_pos hthree]
    have hunasked : asked a.reply = 0 := if_neg fun hok => hthree hok.1
    exact .refused _ _ hshort (Answer.drained_of_unasked hunasked)

/-- An open connection with nothing to receive. -/
def Stream.drained (answers : List Answer) : Stream := { isOpen := true, answers := answers }

/-- A connection on such a stream. -/
def S7Plc.awaiting (plc : S7Plc Stream) (answers : List Answer) : S7Plc Stream :=
  { plc with sock := Stream.drained answers }

/-! ## One reply in pieces -/

/-- A reply that arrives whole, in the given segments. -/
def Answer.cut (reply : Frame) (segments : List (List UInt8)) : Answer :=
  { reply := reply.bytes
    arrives := reply.bytes.length
    cuts := segments.map fun part => part.length - 1 }

/-- The exchange has returned a reply, and the connection is as it was. -/
structure Delivers (plc : S7Plc Stream) (reply : List UInt8) (result : Int × S7Plc Stream) : Prop where
  length : result.1 = reply.length
  buff : result.2.buff.take reply.length = reply
  state : result.2.state = plc.state
  isOpen : result.2.sock.isOpen = plc.sock.isOpen

/-- A reply arrives whole if and only if the first segment has the four bytes of the header: a
shorter one closes the connection, while the rest may come in any pieces. -/
theorem tcpExchange_segments (plc : S7Plc Stream) (request : List UInt8) (reply : Frame)
    (segments : List (List UInt8)) (later : List Answer) (hreply : reply.Accepted)
    (hsegments : ∀ part ∈ segments, part ≠ []) (hcut : segments.flatten = reply.bytes) :
    Delivers (plc.awaiting (Answer.cut reply segments :: later)) reply.bytes
        (S7Plc.tcpExchange Stream.net (plc.awaiting (Answer.cut reply segments :: later)) request) ↔
      ∀ part ∈ segments.head?, 4 ≤ part.length := by
  have hpieces : segments ≠ [] := by
    rintro rfl
    have hfour := reply.four_le
    rw [← hcut] at hfour
    exact absurd hfour (by decide)
  obtain ⟨part, pieces, rfl⟩ := List.exists_cons_of_ne_nil hpieces
  have hfits := hreply.2
  have harrived : (Answer.cut reply (part :: pieces)).arrived = reply.bytes := List.take_length
  rw [← hcut, List.flatten_cons, List.length_append] at hfits
  obtain ⟨b, part, rfl⟩ := List.exists_cons_of_ne_nil (hsegments part List.mem_cons_self)
  -- the first segment is what the first `recv` brings
  have hfirst : segment ((b :: part) :: pieces |>.map fun part => part.length - 1) buffSize
      reply.bytes = b :: part := by
    rw [List.length_cons] at hfits
    rw [segment, List.map_cons, segmentSize, List.length_cons, Nat.add_sub_cancel,
      Nat.min_eq_right (by omega), ← hcut, List.flatten_cons, ← List.length_cons (a := b),
      List.take_left']
    rfl
  simp only [List.head?_cons, Option.mem_def, Option.some.injEq, forall_eq']
  generalize hplc : plc.awaiting (Answer.cut reply ((b :: part) :: pieces) :: later) = plc'
  have hunread : plc'.sock.unread = [] := by rw [← hplc]; rfl
  have hnext : plc'.sock.next = some (Answer.cut reply ((b :: part) :: pieces)) := by rw [← hplc]; rfl
  constructor
  · intro hdelivers
    have houtcome := tcpExchange_answered request hunread hnext (show _ = reply.bytes from rfl)
    generalize plc'.tcpExchange Stream.net request = result at houtcome hdelivers
    cases houtcome with
    | closed sock buff hcause =>
      have hzero : (0 : Int) = reply.bytes.length := hdelivers.length
      have hfour := reply.four_le
      omega
    | refused sock buff hpart hframe => exact absurd hreply hframe
    | whole sock hpart =>
      rw [Answer.first, harrived] at hpart
      exact hfirst ▸ hpart
  · intro hfour
    have hwhole : 4 ≤ (Answer.cut reply ((b :: part) :: pieces)).first.length := by
      rw [Answer.first, harrived]
      exact Nat.le_trans hfour (Nat.le_of_eq (congrArg List.length hfirst).symm)
    obtain ⟨sock, hreceived, -, hview⟩ := tcpExchange_received request hunread hnext rfl
      hreply harrived hwhole
    rw [hreceived]
    exact ⟨rfl, take_overwrite_zero _ _, rfl, congrArg Prod.fst hview⟩

/-- A header and nothing else. -/
def headerFrame : Frame := ⟨[3, 0, 0, 4], by decide, by decide⟩

/-- A header with a body behind it. -/
def bodyFrame : Frame := ⟨[3, 0, 0, 8, 1, 2, 3, 4], by decide, by decide⟩

/-- A connection that waits for a frame, in the given segments. -/
def awaitingFrame (frame : Frame) (segments : List (List UInt8)) : S7Plc Stream :=
  { S7Plc.new Stream.net 0 [] with state := 2 }.awaiting [Answer.cut frame segments]

/-- A body in pieces behind a header of one piece is delivered. -/
theorem tcpExchange_pieces :
    Delivers (awaitingFrame bodyFrame [[3, 0, 0, 8], [1], [2, 3], [4]]) bodyFrame.bytes
      ((awaitingFrame bodyFrame [[3, 0, 0, 8], [1], [2, 3], [4]]).tcpExchange Stream.net [0]) :=
  (tcpExchange_segments { S7Plc.new Stream.net 0 [] with state := 2 } [0] bodyFrame
    [[3, 0, 0, 8], [1], [2, 3], [4]] [] (by decide) (by decide) rfl).mpr (by decide)

/-- A header in two pieces is not delivered, and the connection is lost. -/
theorem tcpExchange_split_header :
    headerFrame.Accepted ∧ [[3, 0], [0, 4]].flatten = headerFrame.bytes ∧
      ((awaitingFrame headerFrame [[3, 0], [0, 4]]).tcpExchange Stream.net [0]).2.state = 0 ∧
      ¬ Delivers (awaitingFrame headerFrame [[3, 0], [0, 4]]) headerFrame.bytes
        ((awaitingFrame headerFrame [[3, 0], [0, 4]]).tcpExchange Stream.net [0]) :=
  ⟨by decide, rfl, rfl, fun h => absurd h.length (by decide)⟩

end OipComms.S7
