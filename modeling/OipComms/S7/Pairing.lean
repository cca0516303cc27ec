import OipComms.Lib.Run
import OipComms.S7.Chunks

/-!
# Replies and the requests they answer

Two callers share a connection and its buffer: `S7_read` of a chunk in the polling thread, and
`S7_sendTag` in the threads that write. Nothing in a reply is compared with its request but the
length and one status byte, so that each caller acts on its own reply only as long as no exchange
leaves bytes behind. Three exits of `S7_TcpExchange` can, and `replies_paired` says when: a reply is
refused, or as much of it has come as its header asks for, and the `recv` that brought this has not
brought everything.
-/

namespace OipComms.S7

open Run Slice

universe u

variable {σ : Type u}

/-! ## The two callers -/

/-- `S7_sendTag` between `lockObj.lock()` and its answer, for a tag in the given area. -/
def S7Plc.sendLocked (net : Net σ) (plc : S7Plc σ) (area : Area) (tag : S7Tag) :
    Int × S7Plc σ × S7Tag :=
  let frame := writeRequest area tag
  let plc := { plc with buff := overwrite plc.buff 0 frame }
  let (ret, plc) := plc.tcpExchange net frame
  let errorCode := plc.buff.getD 21 0
  if ret = 22 ∧ errorCode = 0xFF then (0, plc, { tag with writePending := false })
  else if ret = 22 then (-1, plc, { tag with writePending := false })
  else (1, plc, tag)

/-- The state is looked at before the lock is taken: by then it may be another. -/
theorem s7SendTag_eq_sendLocked (net : Net σ) (plc : S7Plc σ) (tag : S7Tag) :
    plc.s7SendTag net tag =
      if !tag.writePending then (0, plc, tag)
      else match tag.mem with
        | none => (1, plc, tag)
        | some area => if plc.state ≠ 2 then (1, plc, tag) else plc.sendLocked net area tag := rfl

/-- What a thread does with the connection while it holds `lockObj`. -/
inductive LockedCall
  | read (area : Area) (start quantity : Int)
  | write (area : Area) (tag : S7Tag)

/-- The frame a call sends. -/
def LockedCall.request : LockedCall → List UInt8
  | .read area start quantity => readRequest area start quantity
  | .write area tag => writeRequest area tag

/-- The connection as the call hands it to the exchange: a write is laid out in the shared buffer. -/
def LockedCall.prepare (plc : S7Plc σ) : LockedCall → S7Plc σ
  | .read _ _ _ => plc
  | .write area tag => { plc with buff := overwrite plc.buff 0 (writeRequest area tag) }

/-- The exchange a call makes. -/
def LockedCall.exchange (net : Net σ) (plc : S7Plc σ) (call : LockedCall) : Int × S7Plc σ :=
  (call.prepare plc).tcpExchange net call.request

/-- The connection after a call. -/
def LockedCall.step (net : Net σ) (plc : S7Plc σ) : LockedCall → S7Plc σ
  | .read area start quantity => plc.s7ReadChunk net area start quantity
  | .write area tag => (plc.sendLocked net area tag).2.1

/-- What a call takes for an answer to act on: a read copies bytes, a write is settled. -/
def LockedCall.Acts (result : Int × S7Plc σ) : LockedCall → Prop
  | .read _ _ quantity => 0 < quantity ∧ result.1 = 25 + quantity ∧ result.2.buff.getD 21 0 = 0xFF
  | .write _ _ => result.1 = 22

theorem sendLocked_settles (net : Net σ) (plc : S7Plc σ) (area : Area) (tag : S7Tag) :
    (plc.sendLocked net area tag).1 ≠ 1 ↔
      (LockedCall.write area tag).Acts ((LockedCall.write area tag).exchange net plc) := by
  simp only [S7Plc.sendLocked, LockedCall.Acts, LockedCall.exchange, LockedCall.prepare, LockedCall.request]
  generalize S7Plc.tcpExchange net _ _ = result
  by_cases hret : result.1 = 22
  · by_cases hcode : result.2.buff.getD 21 0 = 0xFF
    · simp only [hret, hcode, and_self, if_true, iff_true]
      decide
    · simp only [hret, hcode, and_false, if_false, if_true, iff_true]
      decide
  · simp only [hret, false_and, if_false, ne_eq, not_true]

/-- A call changes the connection as its exchange does. -/
theorem LockedCall.step_sock (net : Net σ) (plc : S7Plc σ) (call : LockedCall) :
    (call.step net plc).sock = (call.exchange net plc).2.sock ∧
      (call.step net plc).state = (call.exchange net plc).2.state := by
  cases call with
  | read area start quantity =>
    simp only [LockedCall.step, S7Plc.s7ReadChunk, LockedCall.exchange, LockedCall.prepare, LockedCall.request]
    split
    · exact ⟨S7Plc.setBlock_sock _ _ _, S7Plc.setBlock_state _ _ _⟩
    · exact ⟨rfl, rfl⟩
  | write area tag =>
    simp only [LockedCall.step, S7Plc.sendLocked, LockedCall.exchange, LockedCall.prepare, LockedCall.request]
    split
    · exact ⟨rfl, rfl⟩
    · split <;> exact ⟨rfl, rfl⟩

/-- The copy of a read whose answer counts. -/
theorem LockedCall.step_image (net : Net σ) (plc : S7Plc σ) (area : Area) (start quantity : Int)
    (h : (LockedCall.read area start quantity).Acts
      ((LockedCall.read area start quantity).exchange net plc)) :
    (((LockedCall.read area start quantity).step net plc).block area).memImage =
      overwrite (((LockedCall.read area start quantity).exchange net plc).2.block area).memImage
        (start - (((LockedCall.read area start quantity).exchange net plc).2.block area).start).toNat
        (slice ((LockedCall.read area start quantity).exchange net plc).2.buff 25 quantity.toNat) := by
  obtain ⟨-, hret, hcode⟩ := h
  simp only [LockedCall.exchange, LockedCall.prepare, LockedCall.request] at hret hcode
  simp only [LockedCall.step, S7Plc.s7ReadChunk, LockedCall.exchange, LockedCall.prepare,
    LockedCall.request, hret, hcode, and_self, if_true, S7Plc.block_setBlock]
  rfl

/-- `S7_read(mem)` is a run of reads. -/
theorem readAll_eq_run (net : Net σ) (area : Area) (plc : S7Plc σ) (chunks : List (Int × Int)) :
    plc.readAll net area chunks =
      run (LockedCall.step net) plc (chunks.map fun chunk => .read area chunk.1 chunk.2) := by
  rw [S7Plc.readAll, run, List.foldl_map]
  rfl

/-! ## Runs of calls on one connection -/

/-- A call uses nothing but the reply to its own request, and if it does not get that reply whole it
leaves nothing of it behind. -/
structure Paired (plc : S7Plc Stream) (call : LockedCall) : Prop where
  /-- What a call acts on is its own reply: the reply is first on the stream, and what arrives of it
  is in the buffer, all of it and nothing else. -/
  own : call.Acts (call.exchange Stream.net plc) → plc.sock.unread = [] ∧
    ∃ a, plc.sock.next = some a ∧ (call.exchange Stream.net plc).1 = a.arrived.length ∧
      (call.exchange Stream.net plc).2.buff.take a.arrived.length = a.arrived
  /-- What a read copies are bytes of its own reply. -/
  copied : ∀ area start quantity a, call = .read area start quantity → plc.sock.next = some a →
    call.Acts (call.exchange Stream.net plc) →
    ((call.step Stream.net plc).block area).memImage =
      overwrite (plc.block area).memImage (start - (plc.block area).start).toNat
        (slice a.reply 25 quantity.toNat)
  /-- Without the whole reply, nothing is left to be received or the connection is closed. -/
  drained : (∀ a, plc.sock.next = some a →
      (call.exchange Stream.net plc).1 ≠ a.reply.length) →
    (call.exchange Stream.net plc).2.sock.unread = [] ∨
      (call.exchange Stream.net plc).2.state = 0

/-- The next reply comes in a first segment that is too short for a header, or nothing of it comes
behind the segment with which there is as much as its header asks for. A header that fails a test
asks for nothing. -/
def Drains (plc : S7Plc Stream) (_ : LockedCall) : Prop :=
  ∀ a ∈ plc.sock.next, a.first.length < 4 ∨ a.Drained

/-- Nothing is left of an earlier reply, and an open connection is known to be one. -/
structure Clean (plc : S7Plc Stream) : Prop where
  unread : plc.sock.unread = []
  state : plc.sock.isOpen = true → plc.state ≠ 0

/-- A connection the polling thread has just negotiated. -/
def S7Plc.ready (plc : S7Plc Stream) (answers : List Answer) : S7Plc Stream :=
  { plc.awaiting answers with state := 2 }

theorem Stream.next_isOpen {s : Stream} {a : Answer} (h : s.next = some a) : s.isOpen = true := by
  have hleaves := Stream.next_leaves h
  rw [Stream.leaves, Bool.and_eq_true] at hleaves
  exact hleaves.1

/-- How a call ends, on a stream with nothing of an earlier reply. -/
theorem exchange_answered {plc : S7Plc Stream} (hclean : Clean plc) {a : Answer}
    (hnext : plc.sock.next = some a) (call : LockedCall) :
    Exchanged (call.prepare plc) a (call.exchange Stream.net plc) := by
  have hsock : (call.prepare plc).sock = plc.sock := by cases call <;> rfl
  exact tcpExchange_answers call.request (hsock ▸ hclean.unread) (hsock ▸ hnext)

theorem exchange_unanswered {plc : S7Plc Stream} (hclean : Clean plc)
    (hnext : plc.sock.next = none) (call : LockedCall) :
    ∃ sock buff, call.exchange Stream.net plc =
      (0, S7Plc.sockClose Stream.net { call.prepare plc with sock := sock, buff := buff }) := by
  have hsock : (call.prepare plc).sock = plc.sock := by cases call <;> rfl
  exact tcpExchange_unanswered call.request (hsock ▸ hclean.unread) (hsock ▸ hnext)

/-- No call acts on an exchange that has returned no reply. -/
theorem not_acts_zero (call : LockedCall) (plc : S7Plc Stream) : ¬ call.Acts (0, plc) := by
  cases call with
  | read area start quantity =>
    rintro ⟨hpos, hret, -⟩
    simp only at hret
    omega
  | write area tag => exact fun hret => absurd hret (show ¬ (0 : Int) = 22 by decide)

/-- An exchange that returns no reply pairs nothing: what counts is what it leaves. -/
theorem paired_of_zero {plc plc' : S7Plc Stream} {call : LockedCall}
    (h : call.exchange Stream.net plc = (0, plc'))
    (hleft : plc'.sock.unread = [] ∨ plc'.state = 0) : Paired plc call := by
  have hno : ¬ call.Acts (call.exchange Stream.net plc) := h ▸ not_acts_zero call plc'
  exact ⟨fun hacts => absurd hacts hno, fun _ _ _ _ _ _ hacts => absurd hacts hno,
    fun _ => h ▸ hleft⟩

/-- A reply of which the first segment has four bytes is not empty. -/
theorem Answer.reply_ne {a : Answer} (hfirst : 4 ≤ a.first.length) : a.reply ≠ [] := by
  intro hnil
  rw [Answer.first, Answer.arrived, hnil, List.take_nil, segment, List.take_nil] at hfirst
  exact absurd hfirst (by decide)

/-- An exchange that receives all that arrives of its reply is paired. -/
theorem paired_of_received {plc : S7Plc Stream} (hunread : plc.sock.unread = []) {a : Answer}
    (hnext : plc.sock.next = some a) {call : LockedCall} {sock : Stream}
    (h : call.exchange Stream.net plc = ((a.arrived.length : Int), { call.prepare plc with
      sock := sock, buff := overwrite (call.prepare plc).buff 0 a.arrived }))
    (hnil : sock.unread = []) : Paired plc call := by
  refine ⟨fun _ => ⟨hunread, a, hnext, ?_, ?_⟩, ?_, fun _ => ?_⟩
  · rw [h]
  · rw [h]
    exact take_overwrite_zero _ _
  · intro area start quantity a' hcall ha' hacts
    subst hcall
    obtain rfl : a = a' := Option.some.inj (hnext.symm.trans ha')
    rw [LockedCall.step_image _ _ _ _ _ hacts, h]
    obtain ⟨hpos, hret, -⟩ := hacts
    rw [h] at hret
    have hlen : (a.arrived.length : Int) = 25 + quantity := hret
    have hslice : slice (overwrite plc.buff 0 a.arrived) 25 quantity.toNat =
        slice a.reply 25 quantity.toNat := by
      rw [slice_overwrite_zero (by omega), ← slice_append_left
        (show 25 + quantity.toNat ≤ a.arrived.length by omega) (r := a.reply.drop a.arrives),
        Answer.arrived, List.take_append_drop]
    exact congrArg (overwrite (plc.block area).memImage _) hslice
  · rw [h]
    exact .inl hnil

/-- From a clean connection a call is paired exactly when nothing is left of the reply to it. -/
theorem paired_iff_drains {plc : S7Plc Stream} (hclean : Clean plc) (call : LockedCall) :
    Drains plc call ↔ Paired plc call := by
  cases hnext : plc.sock.next with
  | none =>
    obtain ⟨sock, buff, hclosed⟩ := exchange_unanswered hclean hnext call
    exact iff_of_true (fun a ha => by rw [hnext] at ha; cases ha) (paired_of_zero hclosed (.inr rfl))
  | some a =>
    have hdrains : Drains plc call ↔ a.first.length < 4 ∨ a.Drained := by
      simp only [Drains, hnext, Option.mem_def, Option.some.injEq, forall_eq']
    have hopen : (call.prepare plc).state ≠ 0 := by
      have hsame : (call.prepare plc).state = plc.state := by cases call <;> rfl
      rw [hsame]
      exact hclean.state (Stream.next_isOpen hnext)
    rw [hdrains]
    have hexchanged := exchange_answered hclean hnext call
    generalize hresult : call.exchange Stream.net plc = result at hexchanged
    cases hexchanged with
    | closed sock buff hcause =>
      refine iff_of_true ?_ (paired_of_zero hresult (.inr rfl))
      refine hcause.imp_right fun hlost b _ hle => ?_
      exact hlost.le.trans hle
    | refused sock buff hfirst hleft =>
      rw [or_iff_right (Nat.not_lt.mpr hfirst), ← hleft]
      refine ⟨fun hnil => paired_of_zero hresult (.inl hnil), fun hpaired => ?_⟩
      have hdrained := hpaired.drained
      rw [hresult] at hdrained
      refine (hdrained fun a' ha' hlen => ?_).resolve_right hopen
      obtain rfl := Option.some.inj (hnext.symm.trans ha')
      have hpos := List.length_pos_iff.mpr (Answer.reply_ne hfirst)
      simp only at hlen
      omega
    | received sock taken hfirst htaken hleft =>
      rw [or_iff_right (Nat.not_lt.mpr hfirst), ← hleft]
      constructor
      · intro hnil
        rw [hnil, List.append_nil] at htaken
        subst htaken
        exact paired_of_received hclean.unread hnext hresult hnil
      · intro hpaired
        have hdrained := hpaired.drained
        rw [hresult] at hdrained
        by_cases hwhole : (taken.length : Int) = a.reply.length
        · have hle := (List.take_prefix a.arrives a.reply).length_le
          have htotal := congrArg List.length htaken
          rw [List.length_append, Answer.arrived] at htotal
          exact List.length_eq_zero_iff.mp (by omega)
        · refine (hdrained fun a' ha' => ?_).resolve_right hopen
          obtain rfl := Option.some.inj (hnext.symm.trans ha')
          exact hwhole

/-- A call that leaves nothing of its reply leaves a clean connection. -/
theorem clean_step {plc : S7Plc Stream} {call : LockedCall} (hclean : Clean plc)
    (hdrains : Drains plc call) : Clean (call.step Stream.net plc) := by
  obtain ⟨hsock, hstate⟩ := LockedCall.step_sock Stream.net plc call
  have hprepare : (call.prepare plc).state = plc.state := by cases call <;> rfl
  suffices h : (call.exchange Stream.net plc).2.sock.unread = [] ∧
      ((call.exchange Stream.net plc).2.sock.isOpen = true →
        (call.exchange Stream.net plc).2.state ≠ 0) from
    ⟨hsock ▸ h.1, hsock ▸ hstate ▸ h.2⟩
  cases hnext : plc.sock.next with
  | none =>
    obtain ⟨sock, buff, hclosed⟩ := exchange_unanswered hclean hnext call
    rw [hclosed]
    exact ⟨rfl, fun h => nomatch h⟩
  | some a =>
    have hopen : plc.state ≠ 0 := hclean.state (Stream.next_isOpen hnext)
    have hexchanged := exchange_answered hclean hnext call
    generalize call.exchange Stream.net plc = result at hexchanged
    cases hexchanged with
    | closed sock buff hcause => exact ⟨rfl, fun h => nomatch h⟩
    | refused sock buff hfirst hleft =>
      exact ⟨hleft.mpr ((hdrains a hnext).resolve_left (Nat.not_lt.mpr hfirst)),
        fun _ => hprepare.symm ▸ hopen⟩
    | received sock taken hfirst htaken hleft =>
      exact ⟨hleft.mpr ((hdrains a hnext).resolve_left (Nat.not_lt.mpr hfirst)),
        fun _ => hprepare.symm ▸ hopen⟩

/-- Every call of a run uses its own reply only, and leaves nothing behind, if and only if nothing of
a reply comes behind the segment with which there is as much as its header asks for. -/
theorem replies_paired (plc : S7Plc Stream) (answers : List Answer) (calls : List LockedCall) :
    Meets (LockedCall.step Stream.net) Paired (plc.ready answers) calls ↔
      Meets (LockedCall.step Stream.net) Drains (plc.ready answers) calls := by
  have hstart : Clean (plc.ready answers) := ⟨rfl, fun _ => (by decide : (2 : Nat) ≠ 0)⟩
  exact (meets_iff_meets_while (LockedCall.step Stream.net) (J := Clean)
    (fun _ _ hclean hdrains => clean_step hclean hdrains)
    (fun _ call hclean => paired_iff_drains hclean call) hstart calls).symm

/-- The answer of a controller to a read of one byte. -/
def byteReply (b : UInt8) : List UInt8 :=
  [3, 0, 0, 26, 2, 0xf0, 0x80, 0x32, 3, 0, 0, 0, 9, 0, 2, 0, 5, 0, 0, 4, 1, 0xff, 4, 0, 8, b]

def ownAnswer (b : UInt8) : Answer :=
  { reply := byteReply b, arrives := 26, cuts := [25] }

/-- A frame of another version, whose header comes alone. -/
def strayAnswer (b : UInt8) : Answer :=
  { reply := [0, 0, 0, 30] ++ byteReply b, arrives := 30, cuts := [3] }

/-- Two replies in one, the header of which asks for the first alone, in a segment for each. -/
example : ¬ Answer.Drained
    { reply := byteReply 0x63 ++ byteReply 0x11, arrives := 52, cuts := [25, 25] } := by decide

/-- A connection with one byte of inputs and one of outputs to read. -/
def twoBytes : S7Plc Stream :=
  { S7Plc.new Stream.net 0 [] with
    i := { start := 0, quantity := 1, memImage := [0] }
    q := { start := 0, quantity := 1, memImage := [0] } }

/-- A refused reply leaves its rest on the stream, and the next read, of the outputs, takes it for its
own: the output image receives 0x63 where the controller has answered 0x11. -/
theorem replies_shifted :
    ¬ Meets (LockedCall.step Stream.net) Paired (twoBytes.ready [strayAnswer 0x63, ownAnswer 0x11])
        [.read .I 0 1, .read .Q 0 1] ∧
      ((run (LockedCall.step Stream.net) (twoBytes.ready [strayAnswer 0x63, ownAnswer 0x11])
        [.read .I 0 1, .read .Q 0 1]).block .Q).memImage = [0x63] := by
  constructor
  · intro h
    rcases h.1.drained (fun a ha => by obtain rfl := Option.some.inj ha; decide) with hleft | hleft
    · exact absurd hleft (by decide)
    · exact absurd hleft (by decide)
  · decide +kernel

end OipComms.S7
