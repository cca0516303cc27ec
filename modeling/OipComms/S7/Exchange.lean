import OipComms.S7.Plc

/-!
# One exchange on a byte stream

What `S7_TcpExchange` keeps is what closing, receiving and storing keep (`tcpExchange_keeps`).

What it sees is a stream: `recv` takes some bytes off the front of what the peer has sent, and how
many is not for the receiver to say. `Net.Streams` is all that is asked of a socket here, and
`tcpExchange_outcome` is the one fact about the exchange: with nothing but the reply to come, in
whole or in part, it ends in one of three ways, which the first segment and the first four bytes of
the reply decide.
-/

namespace OipComms.S7

open Slice

universe u v

variable {σ : Type u} {τ : Type v}

/-! ## What an exchange keeps -/

/-- A property of a connection that closing, receiving and storing what was received keep. -/
structure Net.Keeps (net : Net σ) (P : S7Plc σ → Prop) : Prop where
  close : ∀ {plc}, P plc → P (plc.sockClose net)
  recv : ∀ {plc} n, P plc → P { plc with sock := (net.recv plc.sock n).2 }
  store : ∀ {plc size bytes}, size + bytes.length ≤ buffSize → P plc →
    P { plc with buff := overwrite plc.buff size bytes }

section

variable {net : Net σ} {P : S7Plc σ → Prop}

/-- The body loop keeps it, and its answer is no more than the buffer holds. -/
theorem recvBody_keeps (h : net.Keeps P) (expected fuel : Nat) {size : Nat} {plc : S7Plc σ}
    (hsize : size ≤ buffSize) (hplc : P plc) :
    (S7Plc.recvBody net expected fuel size plc).1 ≤ buffSize ∧
      P (S7Plc.recvBody net expected fuel size plc).2 := by
  induction fuel generalizing size plc with
  | zero => exact ⟨Int.ofNat_le.mpr hsize, hplc⟩
  | succ fuel ih =>
    rw [S7Plc.recvBody]
    by_cases hmore : size < expected
    · have hle := net.recv_le plc.sock (buffSize - size)
      have hrecv := h.recv (buffSize - size) hplc
      rw [if_pos hmore]
      generalize net.recv plc.sock (buffSize - size) = answer at hle hrecv
      obtain ⟨bytes, sock⟩ := answer
      cases bytes with
      | none => exact ⟨Int.natCast_nonneg _, h.close hrecv⟩
      | some bytes =>
        have hfits := hle bytes rfl
        cases bytes with
        | nil => exact ⟨Int.natCast_nonneg _, h.close hrecv⟩
        | cons b bytes =>
          rw [List.length_cons] at hfits
          exact ih (by omega) (h.store (by rw [List.length_cons]; omega) hrecv)
    · rw [if_neg hmore]
      exact ⟨Int.ofNat_le.mpr hsize, hplc⟩

/-- An exchange keeps what is left of it when the request has been sent. -/
theorem tcpExchange_keeps (h : net.Keeps P) {plc : S7Plc σ} (request : List UInt8)
    (hsend : P { plc with sock := (net.send plc.sock request).2 }) :
    (plc.tcpExchange net request).1 ≤ buffSize ∧ P (plc.tcpExchange net request).2 := by
  have hzero : (0 : Int) ≤ buffSize := Int.natCast_nonneg _
  rw [S7Plc.tcpExchange]
  generalize net.send plc.sock request = answer at hsend
  obtain ⟨sent, sock⟩ := answer
  by_cases hsent : sent = request.length
  · have hle := net.recv_le sock buffSize
    have hrecv := h.recv buffSize hsend
    simp only [hsent, ne_eq, not_true, if_false] at hrecv ⊢
    generalize net.recv sock buffSize = answer at hle hrecv
    obtain ⟨bytes, sock'⟩ := answer
    cases bytes with
    | none => exact ⟨hzero, h.close hrecv⟩
    | some bytes =>
      have hfits := hle bytes rfl
      have hstored : P { plc with sock := sock', buff := overwrite plc.buff 0 bytes } :=
        h.store (by omega) hrecv
      simp only
      split
      · exact ⟨hzero, h.close hstored⟩
      split
      · exact ⟨hzero, hstored⟩
      split
      · exact ⟨hzero, hstored⟩
      · exact recvBody_keeps h _ _ hfits hstored
  · simp only [ne_eq, hsent, not_false_eq_true, if_true]
    exact ⟨hzero, h.close hsend⟩

end

/-! ## A stream -/

/-- A socket on a byte stream: `unread` is what can still be received, and a `recv` takes a part of
it off the front. It changes nothing that `view` shows. -/
structure Net.Streams (net : Net σ) (unread : σ → List UInt8) (view : σ → τ) : Prop where
  recv_none : ∀ s n, unread s = [] → (net.recv s n).1 = none
  recv_part : ∀ s n, 0 < n → unread s ≠ [] →
    ∃ part, part ≠ [] ∧ (net.recv s n).1 = some part ∧ unread s = part ++ unread (net.recv s n).2
  recv_view : ∀ s n, view (net.recv s n).2 = view s

variable {net : Net σ} {unread : σ → List UInt8} {view : σ → τ}

/-- The body loop receives what is left of a reply, if all of it comes. -/
theorem recvBody_whole (h : net.Streams unread view) {fuel expected : Nat} (base : List UInt8)
    {front : List UInt8} {plc : S7Plc σ} (hbuff : plc.buff = overwrite base 0 front)
    (hlen : front.length + (unread plc.sock).length = expected) (hfits : expected ≤ buffSize)
    (hfuel : (unread plc.sock).length ≤ fuel) :
    ∃ sock, S7Plc.recvBody net expected fuel front.length plc =
        ((expected : Int), { plc with
          sock := sock, buff := overwrite base 0 (front ++ unread plc.sock) }) ∧
      unread sock = [] ∧ view sock = view plc.sock := by
  induction fuel generalizing front plc with
  | zero =>
    have hnil : unread plc.sock = [] := List.length_eq_zero_iff.mp (by omega)
    rw [hnil, List.length_nil, Nat.add_zero] at hlen
    refine ⟨plc.sock, ?_, hnil, rfl⟩
    rw [S7Plc.recvBody, hnil, List.append_nil, hlen, ← hbuff]
  | succ fuel ih =>
    by_cases hnil : unread plc.sock = []
    · rw [hnil, List.length_nil, Nat.add_zero] at hlen
      refine ⟨plc.sock, ?_, hnil, rfl⟩
      rw [S7Plc.recvBody, if_neg (by omega), hnil, List.append_nil, hlen, ← hbuff]
    · have hsize : 0 < (unread plc.sock).length := List.length_pos_iff.mpr hnil
      obtain ⟨part, hpart, hrecv, hunread⟩ :=
        h.recv_part plc.sock (buffSize - front.length) (by omega) hnil
      have hview := h.recv_view plc.sock (buffSize - front.length)
      generalize hanswer : net.recv plc.sock (buffSize - front.length) = answer at hrecv hunread hview
      obtain ⟨bytes, sock'⟩ := answer
      obtain ⟨b, bytes', rfl⟩ := List.exists_cons_of_ne_nil hpart
      simp only at hrecv hunread hview
      subst hrecv
      have htotal := congrArg List.length hunread
      rw [List.length_append] at htotal
      have hnext : ({ plc with
          sock := sock'
          buff := overwrite plc.buff front.length (b :: bytes') } : S7Plc σ).buff =
          overwrite base 0 (front ++ b :: bytes') := by
        show overwrite plc.buff _ _ = _
        rw [hbuff, ← Nat.zero_add front.length, overwrite_overwrite (Nat.zero_le _)]
      rw [List.length_cons] at htotal
      obtain ⟨sock, hbody, hnone, hkept⟩ := ih hnext
        (by rw [List.length_append, List.length_cons]; simp only; omega) (by simp only; omega)
      refine ⟨sock, ?_, hnone, hkept.trans hview⟩
      rw [S7Plc.recvBody, if_pos (by omega), hanswer, hunread, ← List.append_assoc]
      rw [List.length_append, List.length_cons] at hbody
      exact hbody

/-- The body loop closes the connection on a reply of which not all comes. -/
theorem recvBody_short (h : net.Streams unread view) {fuel expected : Nat} (size : Nat)
    (plc : S7Plc σ) (hlen : size + (unread plc.sock).length < expected) (hfits : expected ≤ buffSize)
    (hfuel : (unread plc.sock).length < fuel) :
    ∃ sock buff, S7Plc.recvBody net expected fuel size plc =
        (0, S7Plc.sockClose net { plc with sock := sock, buff := buff }) ∧
      view sock = view plc.sock := by
  induction fuel generalizing size plc with
  | zero => omega
  | succ fuel ih =>
    have hview := h.recv_view plc.sock (buffSize - size)
    rw [S7Plc.recvBody, if_pos (by omega)]
    by_cases hnil : unread plc.sock = []
    · have hnone := h.recv_none plc.sock (buffSize - size) hnil
      generalize net.recv plc.sock (buffSize - size) = answer at hnone hview
      obtain ⟨bytes, sock'⟩ := answer
      simp only at hnone hview
      subst hnone
      exact ⟨sock', plc.buff, rfl, hview⟩
    · obtain ⟨part, hpart, hrecv, hunread⟩ :=
        h.recv_part plc.sock (buffSize - size) (by omega) hnil
      generalize net.recv plc.sock (buffSize - size) = answer at hrecv hunread hview
      obtain ⟨bytes, sock'⟩ := answer
      obtain ⟨b, bytes', rfl⟩ := List.exists_cons_of_ne_nil hpart
      simp only at hrecv hunread hview
      subst hrecv
      have htotal := congrArg List.length hunread
      rw [List.length_append, List.length_cons] at htotal
      obtain ⟨sock, buff, hbody, hkept⟩ := ih (size + (bytes'.length + 1))
        { plc with sock := sock', buff := overwrite plc.buff size (b :: bytes') }
        (by simp only; omega) (by simp only; omega)
      exact ⟨sock, buff, hbody, hkept.trans hview⟩

/-- What neither receiving nor closing changes, sending changes. -/
theorem tcpExchange_view (h : net.Streams unread view) (hclose : ∀ s, view (net.close s) = view s)
    (plc : S7Plc σ) (request : List UInt8) :
    view (plc.tcpExchange net request).2.sock = view (net.send plc.sock request).2 := by
  have hkeeps : net.Keeps fun plc' => view plc'.sock = view (net.send plc.sock request).2 :=
    { close := fun hview => (hclose _).trans hview
      recv := fun n hview => (h.recv_view _ n).trans hview
      store := fun _ hview => hview }
  exact (tcpExchange_keeps hkeeps request rfl).2

/-! ## Replies -/

/-- The length a TPKT header gives. -/
def tpktLength (bytes : List UInt8) : Nat :=
  (bytes.getD 2 0).toNat <<< 8 + (bytes.getD 3 0).toNat

/-- A TPKT frame: a header of four bytes, which gives the length of the whole. -/
structure Frame where
  bytes : List UInt8
  four_le : 4 ≤ bytes.length
  tpkt : tpktLength bytes = bytes.length

/-- The two tests `S7_TcpExchange` makes on a header it has received. -/
def Frame.Accepted (frame : Frame) : Prop :=
  frame.bytes.getD 0 0 = 3 ∧ frame.bytes.length ≤ buffSize

instance (frame : Frame) : Decidable frame.Accepted := inferInstanceAs (Decidable (_ ∧ _))

/-- How an exchange ends that has nothing but its own reply to receive: `arrived` is the part of the
reply that comes, `part` what the first `recv` brings of it. -/
inductive Outcome (net : Net σ) (unread : σ → List UInt8) (view : σ → τ) (plc : S7Plc σ) (sent : σ)
    (frame : Frame) (arrived part : List UInt8) : Int × S7Plc σ → Prop
  | closed (sock : σ) (buff : List UInt8)
    (hcause : part.length < 4 ∨ frame.Accepted ∧ arrived ≠ frame.bytes) :
    Outcome net unread view plc sent frame arrived part
      (0, S7Plc.sockClose net { plc with sock := sock, buff := buff })
  | refused (sock : σ) (buff : List UInt8) (hpart : 4 ≤ part.length) (hframe : ¬ frame.Accepted)
    (hunread : arrived = part ++ unread sock) (hview : view sock = view sent) :
    Outcome net unread view plc sent frame arrived part (0, { plc with sock := sock, buff := buff })
  | whole (sock : σ) (hpart : 4 ≤ part.length) (hframe : frame.Accepted)
    (harrived : arrived = frame.bytes) (hunread : unread sock = []) (hview : view sock = view sent) :
    Outcome net unread view plc sent frame arrived part
      ((frame.bytes.length : Int),
        { plc with sock := sock, buff := overwrite plc.buff 0 frame.bytes })

/-- The header of a reply stands in the buffer as soon as four bytes of it do. -/
theorem header_overwrite (buff : List UInt8) {part bytes : List UInt8} (hpart : part <+: bytes)
    (hfour : 4 ≤ part.length) :
    (overwrite buff 0 part).getD 0 0 = bytes.getD 0 0 ∧
      tpktLength (overwrite buff 0 part) = tpktLength bytes := by
  obtain ⟨missing, rfl⟩ := hpart
  match part, hfour with
  | a :: b :: c :: d :: back, _ => exact ⟨rfl, rfl⟩

/-- How an exchange ends when nothing but its own reply is to be received. -/
theorem tcpExchange_outcome (h : net.Streams unread view) {plc : S7Plc σ} {request : List UInt8}
    {sent : σ} (hsend : net.send plc.sock request = ((request.length : Int), sent)) (frame : Frame)
    (harrived : unread sent <+: frame.bytes) :
    Outcome net unread view plc sent frame (unread sent) ((net.recv sent buffSize).1.getD [])
      (plc.tcpExchange net request) := by
  have hview := h.recv_view sent buffSize
  simp only [S7Plc.tcpExchange, hsend, ne_eq, not_true, if_false]
  by_cases hnil : unread sent = []
  · have hnone := h.recv_none sent buffSize hnil
    generalize net.recv sent buffSize = answer at hnone hview
    obtain ⟨bytes, sock⟩ := answer
    simp only at hnone
    subst hnone
    exact .closed sock plc.buff (.inl (show (0 : Nat) < 4 by decide))
  · obtain ⟨part, hne, hrecv, hunread⟩ := h.recv_part sent buffSize (by decide) hnil
    generalize net.recv sent buffSize = answer at hrecv hunread hview
    obtain ⟨bytes, sock⟩ := answer
    simp only at hrecv hunread hview
    subst hrecv
    simp only [Option.getD_some]
    by_cases hfour : part.length < 4
    · rw [if_pos hfour]
      exact .closed sock _ (.inl hfour)
    · rw [if_neg hfour]
      rw [Nat.not_lt] at hfour
      have hprefix : part <+: frame.bytes := (List.prefix_append part _).trans (hunread ▸ harrived)
      obtain ⟨hversion, hlength⟩ := header_overwrite plc.buff hprefix hfour
      rw [frame.tpkt] at hlength
      rw [hversion]
      have hle := harrived.length_le
      by_cases hthree : frame.bytes.getD 0 0 = 3
      · rw [if_neg (not_not.mpr hthree)]
        rw [tpktLength] at hlength
        rw [hlength]
        by_cases hlong : buffSize < frame.bytes.length
        · rw [if_pos hlong]
          exact .refused sock _ hfour (fun hok => by have := hok.2; omega) hunread hview
        · rw [if_neg hlong]
          rw [Nat.not_lt] at hlong
          have htotal := congrArg List.length hunread
          rw [List.length_append] at htotal
          by_cases hall : unread sent = frame.bytes
          · have hbuff : ({ plc with sock := sock, buff := overwrite plc.buff 0 part } : S7Plc σ).buff =
                overwrite plc.buff 0 part := rfl
            rw [hall] at htotal
            obtain ⟨sock', hbody, hnone, hkept⟩ := recvBody_whole h plc.buff hbuff htotal.symm hlong
              (Nat.le_of_eq (Nat.eq_sub_of_add_eq' htotal.symm))
            simp only [← hunread, hall] at hbody
            rw [hbody]
            exact .whole sock' hfour ⟨hthree, hlong⟩ hall hnone (hkept.trans hview)
          · have hshort : (unread sent).length < frame.bytes.length := by
              refine Nat.lt_of_le_of_ne hle fun heq => hall ?_
              exact harrived.eq_of_length heq
            rw [htotal] at hshort
            obtain ⟨sock', buff, hbody, -⟩ := recvBody_short h part.length
              { plc with sock := sock, buff := overwrite plc.buff 0 part } hshort hlong
              (Nat.lt_sub_of_add_lt (by rw [Nat.add_comm]; exact hshort))
            rw [hbody]
            exact .closed sock' buff (.inr ⟨⟨hthree, hlong⟩, hall⟩)
      · rw [if_pos hthree]
        exact .refused sock _ hfour (fun hok => hthree hok.1) hunread hview

/-- A reply that passes the tests and arrives whole behind a whole header is received. -/
theorem Outcome.received {plc : S7Plc σ} {sent : σ} {frame : Frame} {arrived part : List UInt8}
    {result : Int × S7Plc σ} (h : Outcome net unread view plc sent frame arrived part result)
    (hframe : frame.Accepted) (harrived : arrived = frame.bytes) (hpart : 4 ≤ part.length) :
    ∃ sock, result = ((frame.bytes.length : Int),
        { plc with sock := sock, buff := overwrite plc.buff 0 frame.bytes }) ∧
      unread sock = [] ∧ view sock = view sent := by
  cases h with
  | closed sock buff hcause =>
    rcases hcause with hshort | ⟨-, hlost⟩
    · omega
    · exact absurd harrived hlost
  | refused sock buff _ hno => exact absurd hframe hno
  | whole sock _ _ _ hunread hview => exact ⟨sock, rfl, hunread, hview⟩

/-- A reply that passes the tests and does not arrive whole closes the connection. -/
theorem Outcome.cut {plc : S7Plc σ} {sent : σ} {frame : Frame} {arrived part : List UInt8}
    {result : Int × S7Plc σ} (h : Outcome net unread view plc sent frame arrived part result)
    (hframe : frame.Accepted) (hlost : arrived ≠ frame.bytes) :
    ∃ sock buff, result = (0, S7Plc.sockClose net { plc with sock := sock, buff := buff }) := by
  cases h with
  | closed sock buff => exact ⟨sock, buff, rfl⟩
  | refused sock buff _ hno => exact absurd hframe hno
  | whole sock _ _ harrived => exact absurd harrived hlost

end OipComms.S7
