import OipComms.Lib.Run
import OipComms.Rtde.Client

/-!
# The incoming stream

The controller's frames arrive in chunks that respect no boundary, and two readers share one
buffer: `recv_frame`, which the handshake blocks in and which stops at the first whole frame, and
`poll`, which takes everything there is and keeps the latest data package.

`Feeds` is what both keep: the buffer and the chunks to come are the encoding of the frames not yet
extracted. `frames_extracted_in_order` follows it along every sequence of calls over every cutting
of the stream.
-/

namespace OipComms.Rtde

open BigEndian Framing Run

/-! ## The codec -/

/-- A frame whose size fits its length field. -/
def FrameFits (f : UInt8 × List UInt8) : Prop := f.2.length ≤ 65532

/-- A frame is its length in two bytes, its type and its payload. -/
theorem frame_eq (type : UInt8) (payload : List UInt8) :
    frame type payload = UInt8.ofNat ((3 + payload.length) / 256) ::
      UInt8.ofNat (3 + payload.length) :: type :: payload := by
  simp only [frame, toBE, Nat.pow_one, Nat.pow_zero, Nat.div_one, List.cons_append, List.nil_append]

/-- A frame is three bytes longer than its payload. -/
theorem length_frame (type : UInt8) (payload : List UInt8) :
    (frame type payload).length = 3 + payload.length := by
  simp only [frame_eq, List.length_cons]
  omega

/-- The length field of a frame that fits. -/
theorem size_frame {n : Nat} (h : n ≤ 65532) :
    (UInt8.ofNat ((3 + n) / 256)).toNat * 256 + (UInt8.ofNat (3 + n)).toNat = 3 + n := by
  rw [UInt8.toNat_ofNat', UInt8.toNat_ofNat']
  omega

/-- A header says how many bytes of what follows are its frame's. -/
theorem parseFrame_cons (hi lo type : UInt8) (body : List UInt8) {n : Nat}
    (h : hi.toNat * 256 + lo.toNat = 3 + n) :
    parseFrame (hi :: lo :: type :: body) =
      if body.length < n then .incomplete else .frame (type, body.take n) (body.drop n) := by
  simp only [parseFrame, h, Nat.add_sub_cancel_left]
  rw [if_neg (by omega)]
  by_cases hlen : body.length < n
  · rw [if_pos hlen, if_pos (by omega)]
  · rw [if_neg hlen, if_neg (by omega)]

/-- `send_frame`'s layout with `parse_buffered_frame`. -/
def frameCodec : Codec (UInt8 × List UInt8) UInt8 where
  Valid := FrameFits
  encode f := frame f.1 f.2
  parse := parseFrame
  parse_nil := rfl
  parse_encode := by
    rintro ⟨type, payload⟩ rest hfits
    simp only [frame_eq, List.cons_append]
    have hlen : ¬ (payload ++ rest).length < payload.length := by
      rw [List.length_append]
      omega
    rw [parseFrame_cons _ _ _ _ (size_frame hfits), if_neg hlen, List.take_left' rfl,
      List.drop_left' rfl]
  parse_part := by
    rintro ⟨type, payload⟩ part rest hfits hcut hrest
    rw [frame_eq] at hcut
    match part with
    | [] => rfl
    | [_] => rfl
    | [_, _] => rfl
    | hi :: lo :: t :: body =>
      simp only [List.cons_append, List.cons.injEq] at hcut
      obtain ⟨rfl, rfl, rfl, hbody⟩ := hcut
      have hlen := congrArg List.length hbody
      rw [List.length_append] at hlen
      have hpos := List.length_pos_iff.mpr hrest
      have hshort : body.length < payload.length := by omega
      rw [parseFrame_cons _ _ _ _ (size_frame hfits), if_pos hshort]

/-! ## What a reader keeps -/

/-- An answer of a connection that stays up: a chunk, or nothing yet. -/
def RecvAnswer.Up (a : RecvAnswer) : Prop :=
  a = .failed eWouldBlock ∨ ∃ b chunk, a = .bytes (b :: chunk)

/-- The buffer and the chunks to come are the encoding of `later`. -/
def Feeds (later : List (UInt8 × List UInt8)) (c : Client) : Prop :=
  ∃ s, c.socket = some s ∧ s.modeSwitch = true ∧ (∀ a ∈ s.recvs, a.Up) ∧
    c.recvBuf ++ recvBytes s.recvs = frameCodec.encodeAll later

/-- A chunk that is received comes before the others. -/
theorem recvBytes_cons_bytes (chunk : List UInt8) (answers : List RecvAnswer) :
    recvBytes (.bytes chunk :: answers) = chunk ++ recvBytes answers := rfl

/-- A receive that fails brings nothing. -/
theorem recvBytes_cons_failed (e : Nat) (answers : List RecvAnswer) :
    recvBytes (.failed e :: answers) = recvBytes answers := rfl

/-- Draining moves bytes from the answers to the buffer, in order. -/
theorem drainLoop_up {answers : List RecvAnswer} (hup : ∀ a ∈ answers, a.Up) (buf : List UInt8) :
    ∃ buf' answers', drainLoop answers buf = (some eWouldBlock, buf', answers') ∧
      (∀ a ∈ answers', a.Up) ∧ buf' ++ recvBytes answers' = buf ++ recvBytes answers := by
  induction answers generalizing buf with
  | nil => exact ⟨buf, [], rfl, hup, rfl⟩
  | cons a answers ih =>
    have hrest : ∀ a ∈ answers, a.Up := fun a ha => hup a (List.mem_cons_of_mem _ ha)
    rcases hup a List.mem_cons_self with rfl | ⟨b, chunk, rfl⟩
    · exact ⟨buf, answers, rfl, hrest, by rw [recvBytes_cons_failed]⟩
    · obtain ⟨buf', answers', hdrain, hup', hbytes⟩ := ih hrest (buf ++ b :: chunk)
      refine ⟨buf', answers', hdrain, hup', ?_⟩
      rw [hbytes, recvBytes_cons_bytes, List.append_assoc]

/-- `try_extract_frame` takes the next frame, or leaves less than one in the buffer. -/
theorem tryExtractFrame_feeds {later : List (UInt8 × List UInt8)} {c : Client}
    (hfits : ∀ f ∈ later, FrameFits f) (h : Feeds later c) :
    (∃ f later' c', later = f :: later' ∧ c.tryExtractFrame = (.frame f.1 f.2, c') ∧
      Feeds later' c') ∨
    ∃ c', c.tryExtractFrame = (.nothing, c') ∧ Feeds later c' ∧
      frameCodec.Trailing later c'.recvBuf := by
  obtain ⟨s, hsocket, hmode, hup, hbytes⟩ := h
  obtain ⟨buf, recvs, hdrain, hup', hmoved⟩ := drainLoop_up hup c.recvBuf
  rw [hbytes] at hmoved
  rcases frameCodec.parse_stream hfits hmoved with
    ⟨f, later', rest, hlater, hparse, hrest⟩ | ⟨hparse, htrailing⟩
  · left
    refine ⟨f, later', { c with
      socket := some { s with recvs := recvs, errno := eWouldBlock }, recvBuf := rest }, hlater, ?_,
      { s with recvs := recvs, errno := eWouldBlock }, rfl, hmode, hup', hrest⟩
    simp only [Client.tryExtractFrame, hsocket, hdrain, if_true, Client.parseBufferedFrame]
    rw [show parseFrame buf = .frame f rest from hparse]
  · right
    refine ⟨{ c with
      socket := some { s with recvs := recvs, errno := eWouldBlock }, recvBuf := buf }, ?_,
      ⟨{ s with recvs := recvs, errno := eWouldBlock }, rfl, hmode, hup', hmoved⟩, htrailing⟩
    simp only [Client.tryExtractFrame, hsocket, hdrain, if_true, Client.parseBufferedFrame]
    rw [show parseFrame buf = .incomplete from hparse]

/-- A whole frame in the buffer is taken without a receive. -/
theorem recvLoop_frame {buf rest : List UInt8} {f : UInt8 × List UInt8}
    (h : parseFrame buf = .frame f rest) (errno : Nat) (answers : List RecvAnswer) :
    recvLoop errno answers buf = (.frame f rest, none, rest, answers) := by
  rw [recvLoop.eq_def]
  simp only [h]

/-- Without one, the next answer of the socket decides. -/
theorem recvLoop_incomplete {buf : List UInt8} (h : parseFrame buf = .incomplete) (errno : Nat)
    (answers : List RecvAnswer) :
    recvLoop errno answers buf =
      match answers with
      | [] => (.incomplete, some eWouldBlock, buf, [])
      | .failed e :: answers => (.incomplete, some e, buf, answers)
      | .bytes [] :: answers => (.incomplete, some errno, buf, answers)
      | .bytes (b :: chunk) :: answers => recvLoop errno answers (buf ++ b :: chunk) := by
  rcases answers with _ | ⟨⟨_ | ⟨b, chunk⟩⟩ | e, answers⟩
  all_goals
    rw [recvLoop.eq_def errno _ buf]
    simp only [h]

/-- The loop of `recv_frame` takes the next frame, or a `recv()` of it fails. -/
theorem recvLoop_feeds {later : List (UInt8 × List UInt8)} (hfits : ∀ f ∈ later, FrameFits f)
    (errno : Nat) {answers : List RecvAnswer} {buf : List UInt8} (hup : ∀ a ∈ answers, a.Up)
    (hbytes : buf ++ recvBytes answers = frameCodec.encodeAll later) :
    (∃ f later' rest answers', later = f :: later' ∧
      recvLoop errno answers buf = (.frame f rest, none, rest, answers') ∧
      (∀ a ∈ answers', a.Up) ∧ rest ++ recvBytes answers' = frameCodec.encodeAll later') ∨
    ∃ e buf' answers', recvLoop errno answers buf = (.incomplete, some e, buf', answers') := by
  induction answers generalizing buf with
  | nil =>
    rcases frameCodec.parse_stream hfits hbytes with
      ⟨f, later', rest, hlater, hparse, hrest⟩ | ⟨hparse, _⟩
    · exact .inl ⟨f, later', rest, [], hlater, recvLoop_frame hparse errno [], hup, hrest⟩
    · exact .inr ⟨_, _, _, recvLoop_incomplete hparse errno []⟩
  | cons a answers ih =>
    have hup' : ∀ a ∈ answers, a.Up := fun a ha => hup a (List.mem_cons_of_mem _ ha)
    rcases frameCodec.parse_stream hfits hbytes with
      ⟨f, later', rest, hlater, hparse, hrest⟩ | ⟨hparse, _⟩
    · exact .inl ⟨f, later', rest, a :: answers, hlater, recvLoop_frame hparse errno _, hup, hrest⟩
    · rw [recvLoop_incomplete hparse]
      rcases hup a List.mem_cons_self with rfl | ⟨b, chunk, rfl⟩
      · exact .inr ⟨_, _, _, rfl⟩
      · apply ih hup'
        rw [List.append_assoc, ← recvBytes_cons_bytes, hbytes]

/-- `recv_frame` takes the next frame when it returns one. -/
theorem recvFrame_feeds {later : List (UInt8 × List UInt8)} {c c' : Client}
    {f : UInt8 × List UInt8} (hfits : ∀ f ∈ later, FrameFits f) (h : Feeds later c)
    (hrecv : c.recvFrame = (some f, c')) :
    ∃ later', later = f :: later' ∧ Feeds later' c' := by
  obtain ⟨s, hsocket, hmode, hup, hbytes⟩ := h
  rcases recvLoop_feeds hfits s.errno hup hbytes with
    ⟨f', later', rest, answers', hlater, hframe, hup', hrest⟩ | ⟨e, buf', answers', hnone⟩
  · simp only [Client.recvFrame, hsocket, hmode, hframe, Bool.not_true, Bool.false_eq_true,
      if_false, Prod.mk.injEq, Option.some.injEq] at hrecv
    obtain ⟨rfl, rfl⟩ := hrecv
    exact ⟨later', hlater, { s with recvs := answers', modeSwitch := true }, rfl, rfl, hup', hrest⟩
  · simp only [Client.recvFrame, hsocket, hmode, hnone, Bool.not_true, Bool.false_eq_true,
      if_false, Prod.mk.injEq, reduceCtorEq, false_and] at hrecv

/-! ## The poll -/

/-- The frames the loop of `poll` extracts, in order. -/
def pollTrace : Nat → Client → List (UInt8 × List UInt8)
  | 0, _ => []
  | fuel + 1, c =>
    match c.tryExtractFrame with
    | (.frame type payload, c) => (type, payload) :: pollTrace fuel c
    | _ => []

/-- The frames a `poll` extracts. -/
def Client.pollFrames (c : Client) : List (UInt8 × List UInt8) :=
  match c.socket with
  | none => []
  | some s => pollTrace (c.recvBuf.length + (recvBytes s.recvs).length + 1) c

/-- The recipe id and the body of a data package with a payload. -/
def packageOf : UInt8 × List UInt8 → Option (UInt8 × List UInt8)
  | (_, []) => none
  | (type, recipeId :: body) => if type = mtDataPackage then some (recipeId, body) else none

/-- What a `poll` that extracted these frames returns: its last package, if there is one. -/
def pollAnswer (latest : Option (UInt8 × List UInt8)) (frames : List (UInt8 × List UInt8)) :
    Extracted :=
  match (frames.filterMap packageOf).getLast?.or latest with
  | some (recipeId, body) => .frame recipeId body
  | none => .nothing

/-- A poll answers with the last package. -/
theorem pollAnswer_cons (latest : Option (UInt8 × List UInt8)) (f : UInt8 × List UInt8)
    (frames : List (UInt8 × List UInt8)) :
    pollAnswer latest (f :: frames) = pollAnswer ((packageOf f).or latest) frames := by
  unfold pollAnswer
  cases hf : packageOf f with
  | none => rw [List.filterMap_cons_none hf, Option.none_or]
  | some package =>
    rw [List.filterMap_cons_some hf, List.getLast?_cons]
    cases (frames.filterMap packageOf).getLast? <;> rfl

/-- A round of `poll` that extracts a frame. -/
theorem pollLoop_frame {c c' : Client} {f : UInt8 × List UInt8}
    (h : c.tryExtractFrame = (.frame f.1 f.2, c')) (fuel : Nat)
    (latest : Option (UInt8 × List UInt8)) :
    pollLoop (fuel + 1) latest c = pollLoop fuel ((packageOf f).or latest) c' := by
  obtain ⟨type, payload⟩ := f
  simp only [pollLoop, h]
  cases payload with
  | nil => rfl
  | cons recipeId body =>
    simp only [packageOf]
    by_cases htype : type = mtDataPackage
    · rw [if_pos htype, if_pos htype]
      rfl
    · rw [if_neg htype, if_neg htype]
      rfl

/-- With more rounds than frames to come, `poll` takes every whole frame that has arrived and
answers with the last package among them. -/
theorem pollLoop_feeds {fuel : Nat} {later : List (UInt8 × List UInt8)} {c : Client}
    (latest : Option (UInt8 × List UInt8)) (hfuel : later.length < fuel)
    (hfits : ∀ f ∈ later, FrameFits f) (h : Feeds later c) :
    ∃ later' c', later = pollTrace fuel c ++ later' ∧ Feeds later' c' ∧
      frameCodec.Trailing later' c'.recvBuf ∧
      pollLoop fuel latest c = (pollAnswer latest (pollTrace fuel c), c') := by
  induction fuel generalizing later c latest with
  | zero => exact absurd hfuel (Nat.not_lt_zero _)
  | succ fuel ih =>
    rcases tryExtractFrame_feeds hfits h with
      ⟨f, later', c', rfl, hextract, hfeeds⟩ | ⟨c', hextract, hfeeds, htrailing⟩
    · have hlen : later'.length < fuel := by
        rw [List.length_cons] at hfuel
        omega
      obtain ⟨later'', c'', hsplit, hfeeds', htrailing, hloop⟩ :=
        ih ((packageOf f).or latest) hlen (fun f hf => hfits f (List.mem_cons_of_mem _ hf)) hfeeds
      refine ⟨later'', c'', ?_, hfeeds', htrailing, ?_⟩
      · simp only [pollTrace, hextract, List.cons_append, ← hsplit]
      · rw [pollLoop_frame hextract, hloop]
        simp only [pollTrace, hextract, pollAnswer_cons]
    · refine ⟨later, c', ?_, hfeeds, htrailing, ?_⟩
      · simp only [pollTrace, hextract, List.nil_append]
      · simp only [pollLoop, pollTrace, hextract, pollAnswer, List.filterMap_nil, List.getLast?_nil,
          Option.none_or]
        cases latest <;> rfl

/-- An empty buffer trails. -/
theorem trailing_nil (later : List (UInt8 × List UInt8)) : frameCodec.Trailing later [] := by
  cases later with
  | nil => rfl
  | cons f later =>
    refine ⟨frameCodec.encode f, fun hnil => ?_, rfl⟩
    have hlen : (frameCodec.encode f).length = 3 + f.2.length := length_frame f.1 f.2
    rw [hnil, List.length_nil] at hlen
    omega

/-- A frame takes at least three bytes of the stream. -/
theorem length_le_encodeAll (frames : List (UInt8 × List UInt8)) :
    frames.length ≤ (frameCodec.encodeAll frames).length := by
  induction frames with
  | nil => exact Nat.le_refl 0
  | cons f frames ih =>
    have hframe : (frameCodec.encode f).length = 3 + f.2.length := length_frame f.1 f.2
    rw [Codec.encodeAll_cons, List.length_append, List.length_cons]
    omega

/-- A poll takes the whole frames off the stream, in their order. -/
theorem poll_feeds {later : List (UInt8 × List UInt8)} {c : Client}
    (hfits : ∀ f ∈ later, FrameFits f) (h : Feeds later c) :
    ∃ later', later = c.pollFrames ++ later' ∧ Feeds later' c.poll.2 ∧
      frameCodec.Trailing later' c.poll.2.recvBuf ∧ c.poll.1 = pollAnswer none c.pollFrames := by
  obtain ⟨s, hsocket, _, _, hbytes⟩ := id h
  have hlen := length_le_encodeAll later
  rw [← hbytes, List.length_append] at hlen
  obtain ⟨later', c', hlater, hfeeds, htrailing, hloop⟩ :=
    pollLoop_feeds none
      (show later.length < c.recvBuf.length + (recvBytes s.recvs).length + 1 by omega) hfits h
  simp only [Client.poll, Client.pollFrames, hsocket, hloop]
  exact ⟨later', hlater, hfeeds, htrailing, trivial⟩

/-! ## Every division of a stream over calls -/

/-- The calls that extract frames. -/
inductive ReadCall
  | recvFrame
  | poll
  deriving DecidableEq, Repr

/-- A connection, and every frame `parse_buffered_frame` has extracted on it. -/
structure Receiver where
  client : Client
  extracted : List (UInt8 × List UInt8) := []
  deriving DecidableEq, Repr

def Receiver.step (r : Receiver) : ReadCall → Receiver
  | .recvFrame =>
    match r.client.recvFrame with
    | (some f, c) => { client := c, extracted := r.extracted ++ [f] }
    | (none, c) => { r with client := c }
  | .poll => { client := r.client.poll.2, extracted := r.extracted ++ r.client.pollFrames }

/-- `recv_frame` is called where a whole frame is going to arrive: it does not fail. -/
def Receiver.Answered (r : Receiver) : ReadCall → Prop
  | .recvFrame => r.client.recvFrame.1.isSome = true
  | .poll => True

/-- A connection on which nothing has been received yet. -/
def Receiver.start (answers : List RecvAnswer) : Receiver :=
  { client := { socket := some { recvs := answers } } }

/-- The frames extracted are the first of the list, and the rest is still to be read. -/
def Receiver.InOrder (frames : List (UInt8 × List UInt8)) (r : Receiver) : Prop :=
  ∃ later, frames = r.extracted ++ later ∧ Feeds later r.client

/-- Every call takes the frames in their order. -/
theorem Receiver.InOrder.step {frames : List (UInt8 × List UInt8)}
    (hfits : ∀ f ∈ frames, FrameFits f) {r : Receiver} (h : r.InOrder frames) (call : ReadCall)
    (hanswered : r.Answered call) : (r.step call).InOrder frames := by
  obtain ⟨later, rfl, hfeeds⟩ := h
  have hlater : ∀ f ∈ later, FrameFits f := fun f hf => hfits f (List.mem_append_right _ hf)
  cases call with
  | recvFrame =>
    obtain ⟨f, hsome⟩ := Option.isSome_iff_exists.mp hanswered
    obtain ⟨c', hpair⟩ : ∃ c', r.client.recvFrame = (some f, c') := ⟨_, Prod.ext hsome rfl⟩
    obtain ⟨later', rfl, hfeeds'⟩ := recvFrame_feeds hlater hfeeds hpair
    refine ⟨later', ?_, ?_⟩
    · simp only [Receiver.step, hpair, List.append_assoc, List.cons_append, List.nil_append]
    · simp only [Receiver.step, hpair]
      exact hfeeds'
  | poll =>
    obtain ⟨later', hsplit, hfeeds', _, _⟩ := poll_feeds hlater hfeeds
    refine ⟨later', ?_, hfeeds'⟩
    simp only [Receiver.step, List.append_assoc, ← hsplit]

/-- The whole frames at the front of a buffer, and the piece behind them. -/
theorem exists_left {later : List (UInt8 × List UInt8)} (hfits : ∀ f ∈ later, FrameFits f)
    {buf more : List UInt8} (h : buf ++ more = frameCodec.encodeAll later) :
    ∃ left rest tail, later = left ++ rest ∧ buf = frameCodec.encodeAll left ++ tail ∧
      frameCodec.Trailing rest tail := by
  induction later generalizing buf with
  | nil => exact ⟨[], [], [], rfl, (List.append_eq_nil_iff.mp h).1, rfl⟩
  | cons f later ih =>
    rcases frameCodec.parse_stream hfits h with
      ⟨f', later', rest, hcons, hparse, hrest⟩ | ⟨_, htrailing⟩
    · obtain ⟨rfl, rfl⟩ := List.cons.inj hcons
      obtain ⟨left, behind, tail, rfl, hbuf, htail⟩ :=
        ih (fun f hf => hfits f (List.mem_cons_of_mem _ hf)) hrest
      refine ⟨f :: left, behind, tail, rfl, ?_, htail⟩
      have hwhole : buf ++ more = (frameCodec.encode f ++ rest) ++ more := by
        rw [h, Codec.encodeAll_cons, List.append_assoc, hrest]
      rw [List.append_cancel_right hwhole, hbuf, Codec.encodeAll_cons, List.append_assoc]
    · exact ⟨[], f :: later, buf, rfl, rfl, htrailing⟩

/-- Whatever the chunks and however the calls divide them: the frames extracted so far, the whole
frames a `recv_frame` left in the buffer, and the frames not yet complete are the frames sent, in
order; the buffer is exactly what was left and the trailing piece; nothing whole is left by a
`poll`; and every `poll` answers with the last package it extracted. -/
theorem frames_extracted_in_order (frames : List (UInt8 × List UInt8))
    (hfits : ∀ f ∈ frames, f.2.length ≤ 65532) (answers : List RecvAnswer)
    (hup : ∀ a ∈ answers, a.Up) (hstream : recvBytes answers = frameCodec.encodeAll frames)
    (calls : List ReadCall)
    (hanswered : Meets Receiver.step Receiver.Answered (Receiver.start answers) calls) :
    let r := run Receiver.step (Receiver.start answers) calls
    (∃ left later tail s, frames = r.extracted ++ left ++ later ∧
      r.client.recvBuf = frameCodec.encodeAll left ++ tail ∧ frameCodec.Trailing later tail ∧
      r.client.socket = some s ∧
      frameCodec.encodeAll r.extracted ++ r.client.recvBuf ++ recvBytes s.recvs =
        recvBytes answers ∧
      (calls.getLast? ≠ some .recvFrame → left = [])) ∧
    ∀ pre post, calls = pre ++ .poll :: post →
      let r := run Receiver.step (Receiver.start answers) pre
      r.client.poll.1 = pollAnswer none r.client.pollFrames := by
  have hstart : (Receiver.start answers).InOrder frames :=
    ⟨frames, rfl, { recvs := answers }, rfl, rfl, hup, hstream⟩
  have hstep : ∀ (r : Receiver) call, r.InOrder frames → r.Answered call →
      (r.step call).InOrder frames := fun r call h ha => h.step hfits call ha
  have halong := along_of_meets Receiver.step hstep hstart hanswered
  intro r
  constructor
  · obtain ⟨later, hsplit, s, hsocket, hmode, hups, hbytes⟩ := halong.last
    have hlater : ∀ f ∈ later, FrameFits f := fun f hf =>
      hfits f (by rw [hsplit]; exact List.mem_append_right _ hf)
    have htotal : frameCodec.encodeAll r.extracted ++ r.client.recvBuf ++ recvBytes s.recvs =
        recvBytes answers := by
      rw [hstream, hsplit, Codec.encodeAll_append, List.append_assoc, ← hbytes]
    rcases List.eq_nil_or_concat' calls with rfl | ⟨pre, call, rfl⟩
    · refine ⟨[], later, [], s, ?_, rfl, ?_, hsocket, htotal, fun _ => rfl⟩
      · rw [List.append_nil]
        exact hsplit
      · exact trailing_nil later
    · cases call with
      | recvFrame =>
        obtain ⟨left, rest, tail, rfl, hbuf, htail⟩ := exists_left hlater hbytes
        refine ⟨left, rest, tail, s, ?_, hbuf, htail, hsocket, htotal, fun h => ?_⟩
        · rw [List.append_assoc]
          exact hsplit
        · exact absurd List.getLast?_concat h
      | poll =>
        have hpre := (along_iff_prefixes Receiver.step _ _ _).mp halong pre (List.prefix_append _ _)
        obtain ⟨later₀, hsplit₀, hfeeds₀⟩ := hpre
        have hlater₀ : ∀ f ∈ later₀, FrameFits f := fun f hf =>
          hfits f (by rw [hsplit₀]; exact List.mem_append_right _ hf)
        obtain ⟨later', hpoll, _, htrailing, _⟩ := poll_feeds hlater₀ hfeeds₀
        have hrun : r = (run Receiver.step (Receiver.start answers) pre).step .poll :=
          run_concat Receiver.step _ _ _
        have hextracted : frames = r.extracted ++ later' := by
          rw [hrun, hsplit₀, hpoll]
          simp only [Receiver.step, List.append_assoc]
        refine ⟨[], later', r.client.recvBuf, s, ?_, rfl, ?_, hsocket, htotal, fun _ => rfl⟩
        · rw [List.append_nil]
          exact hextracted
        · rw [hrun]
          exact htrailing
  · rintro pre post rfl
    obtain ⟨later, hsplit, hfeeds⟩ :=
      (along_iff_prefixes Receiver.step _ _ _).mp halong pre (List.prefix_append _ _)
    have hlater : ∀ f ∈ later, FrameFits f := fun f hf =>
      hfits f (by rw [hsplit]; exact List.mem_append_right _ hf)
    obtain ⟨_, _, _, _, hanswer⟩ := poll_feeds hlater hfeeds
    exact hanswer

/-- Two frames in one chunk, read by one `recv_frame`: the second stays whole in the buffer. -/
theorem recvFrame_leaves_frame :
    let frames : List (UInt8 × List UInt8) := [(83, [1]), (85, [1, 7])]
    let answers := [RecvAnswer.bytes [0, 4, 83, 1, 0, 5, 85, 1, 7]]
    let r := run Receiver.step (Receiver.start answers) [.recvFrame]
    recvBytes answers = frameCodec.encodeAll frames ∧
      Meets Receiver.step Receiver.Answered (Receiver.start answers) [.recvFrame] ∧
      ¬ ∃ later, frames = r.extracted ++ later ∧ frameCodec.Trailing later r.client.recvBuf := by
  intro frames answers r
  refine ⟨rfl, ⟨rfl, trivial⟩, ?_⟩
  rintro ⟨later, hsplit, htrailing⟩
  have hextracted : r.extracted = [(83, [1])] := rfl
  rw [hextracted] at hsplit
  obtain rfl : later = [(85, [1, 7])] := (List.cons.inj hsplit).2.symm
  obtain ⟨missing, hne, hcut⟩ := htrailing
  have hbuf : r.client.recvBuf = frameCodec.encode (85, [1, 7]) := rfl
  rw [hbuf] at hcut
  exact hne (List.append_right_eq_self.mp hcut)

/-- A handshake reply and two packages, cut inside a length field and inside a payload. -/
theorem three_frames_extracted :
    let answers : List RecvAnswer := [.bytes [0], .bytes [4, 83, 1, 0], .failed eWouldBlock,
      .bytes [5, 85, 1], .failed eWouldBlock, .bytes [7, 0, 5, 85, 1, 8]]
    let r := run Receiver.step (Receiver.start answers) [.recvFrame, .poll, .poll, .poll]
    (∃ left later tail s, [(83, [1]), (85, [1, 7]), (85, [1, 8])] = r.extracted ++ left ++ later ∧
      r.client.recvBuf = frameCodec.encodeAll left ++ tail ∧ frameCodec.Trailing later tail ∧
      r.client.socket = some s ∧
      frameCodec.encodeAll r.extracted ++ r.client.recvBuf ++ recvBytes s.recvs =
        recvBytes answers ∧
      (([.recvFrame, .poll, .poll, .poll] : List ReadCall).getLast? ≠ some .recvFrame →
        left = [])) ∧
    ∀ pre post, [.recvFrame, .poll, .poll, .poll] = pre ++ ReadCall.poll :: post →
      let r := run Receiver.step (Receiver.start answers) pre
      r.client.poll.1 = pollAnswer none r.client.pollFrames := by
  intro answers
  refine frames_extracted_in_order _ ?_ answers ?_ rfl _ ⟨rfl, trivial, trivial, trivial, trivial⟩
  · intro f hf
    simp only [List.mem_cons, List.not_mem_nil, or_false] at hf
    rcases hf with rfl | rfl | rfl <;> decide
  · intro a ha
    simp only [answers, List.mem_cons, List.not_mem_nil, or_false] at ha
    rcases ha with rfl | rfl | rfl | rfl | rfl | rfl
    · exact .inr ⟨_, _, rfl⟩
    · exact .inr ⟨_, _, rfl⟩
    · exact .inl rfl
    · exact .inr ⟨_, _, rfl⟩
    · exact .inl rfl
    · exact .inr ⟨_, _, rfl⟩

end OipComms.Rtde
