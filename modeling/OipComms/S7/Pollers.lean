import OipComms.Lib.Scratch
import OipComms.S7.Controller
import OipComms.S7.Image
import OipComms.S7.Pairing

/-!
# The pollers of several connections

Every `S7Plc` has a polling thread, a socket, a buffer and a `lockObj` of its own, but the request of
`S7_read` is filled in where the class keeps it: `Read_IQM_Bytes` is one array for all of them. A
chunk is two parts, the request filled in and the request sent, and what a polling thread holds
across both keeps away only the threads that use the same connection.

`sends_own_requests` says in which interleavings every poller sends what it has filled in. In these
each goes on as if it were the only one (`poller_alone`), and alone it reads a block as `S7_read(mem)`
does (`block_alone`). A lock of the class would leave no others (`sends_own_of_exclusive`).
-/

namespace OipComms.S7

open Run Slice BitMemory

universe u v

variable {σ : Type u}

/-! ## The shared request -/

/-- What `S7_read(memory, start, quantity)` writes into `Read_IQM_Bytes`, on top of what is there. -/
def fillRequest (r : List UInt8) (area : Area) (start quantity : Int) : List UInt8 :=
  let r := r.set 23 (u8 (quantity.tdiv 256))
  let r := r.set 24 (u8 (quantity.tmod 256))
  let r := r.set 27 (areaCode area)
  let r := r.set 28 (u8 ((int32 (start * 8)).tdiv 65536))
  let r := r.set 29 (u8 ((int32 (start * 8)).tdiv 256))
  r.set 30 (u8 ((int32 (start * 8)).tmod 256))

/-- What is filled in replaces what was. -/
theorem fillRequest_fillRequest (r : List UInt8) (area area' : Area)
    (start start' quantity quantity' : Int) :
    fillRequest (fillRequest r area start quantity) area' start' quantity' =
      fillRequest r area' start' quantity' := by
  apply List.ext_getElem?
  intro k
  simp only [fillRequest, List.getElem?_set, List.length_set]
  grind

/-- `S7_read(memory, start, quantity)` from where the request is filled in: what `Read_IQM_Bytes`
holds is sent. -/
def S7Plc.exchangeChunk (net : Net σ) (plc : S7Plc σ) (request : List UInt8) (area : Area)
    (start quantity : Int) : S7Plc σ :=
  let (ret, plc) := plc.tcpExchange net request
  if ret = 25 + quantity ∧ plc.buff.getD 21 0 = 0xFF then
    let mem := plc.block area
    let bytes := (plc.buff.drop 25).take quantity.toNat
    let memImage := Slice.overwrite mem.memImage (start - mem.start).toNat bytes
    plc.setBlock area { mem with memImage := memImage }
  else plc

/-- A chunk exchanged with a request of its own is a chunk that is read. -/
theorem exchangeChunk_readRequest (net : Net σ) (plc : S7Plc σ) (area : Area)
    (start quantity : Int) :
    plc.exchangeChunk net (readRequest area start quantity) area start quantity =
      plc.s7ReadChunk net area start quantity := rfl

/-! ## One poller -/

/-- The chunk loop of `S7_read(mem)`: the block, the snapshot the loop runs over, and the chunk of
`n` bytes at `i` it has come to. -/
structure ChunkLoop where
  area : Area
  start : Int
  quantity : Int
  i : Int
  n : Int
  deriving DecidableEq

/-- The request for the chunk. -/
def ChunkLoop.request (loop : ChunkLoop) : List UInt8 := readRequest loop.area loop.i loop.n

/-- Bytes that become the request for any chunk when that is filled in. -/
def Template (r : List UInt8) : Prop :=
  ∀ loop : ChunkLoop, fillRequest r loop.area loop.i loop.n = loop.request

/-- The static request starts as a template. -/
theorem template_readIqmBytes : Template readIqmBytes := fun _ => rfl

/-- Nothing of an earlier request is left in the next. -/
theorem template_request (loop : ChunkLoop) : Template loop.request := by
  intro loop'
  rw [← template_readIqmBytes loop, fillRequest_fillRequest]
  exact template_readIqmBytes loop'

/-- The loop after the chunk. -/
def ChunkLoop.next (pdu : Int) (loop : ChunkLoop) : ChunkLoop :=
  { loop with
    i := int32 (loop.i + loop.n)
    n := min (pdu - 25) (int32 (loop.quantity - int32 (loop.i + loop.n) + loop.start)) }

/-- Where a polling thread is in `s7_poll`: before the next of the blocks left in this round, or at
the top of its loop when none is left; before the next chunk of a block; between filling in the
request for a chunk and sending it, with `lockObj` in its hands; or ended by an exception, and the
process with it. -/
inductive Place
  | between (rest : List Area)
  | chunk (loop : ChunkLoop) (rest : List Area)
  | filled (loop : ChunkLoop) (rest : List Area)
  | ended
  deriving DecidableEq

/-- The chunk loop goes on until there is nothing to read. -/
def Place.next (loop : ChunkLoop) (rest : List Area) : Place :=
  if loop.n = 0 then .between rest else .chunk loop rest

/-- The polling thread holds `lockObj`. -/
def Place.locked : Place → Bool
  | .filled _ _ => true
  | _ => false

/-- A connection and its polling thread. -/
structure Poller (σ : Type u) where
  plc : S7Plc σ
  place : Place := .between []

/-- What can happen on a connection: its polling thread goes on, or it has just connected; another
thread sends a tag, registers one, with what `S7Tag::IdCounter` is then, or destroys the object. -/
inductive PollerEvent (σ : Type u)
  | poll
  | connected (sock : σ)
  | write (area : Area) (tag : S7Tag)
  | registerTag (counter : Nat) (tagName : CStr)
  | close

/-- `s7_poll` between two blocks. -/
def Poller.between (net : Net σ) (x : Poller σ) : List Area → Poller σ
  | [] =>
    if x.plc.state = 1 then { x with plc := x.plc.s7Negotiate net }
    else if x.plc.state = 2 then { x with place := .between [.I, .Q, .M] }
    else x
  | area :: rest =>
    let mem := x.plc.block area
    if mem.quantity = 0 then { x with place := .between rest }
    -- `resize` of a negative size throws
    else if mem.resized = true ∧ mem.quantity < 0 then { x with place := .ended }
    else
      { plc := x.plc.setBlock area mem.snapshot
        place := .next ⟨area, mem.start, mem.quantity, mem.start,
          min (x.plc.pduMaxLength - 25) mem.quantity⟩ rest }

/-- The request for a chunk is sent, and what comes is copied; then `lockObj` is free. -/
def Poller.exchange (net : Net σ) (request : List UInt8) (loop : ChunkLoop) (rest : List Area)
    (x : Poller σ) : Poller σ :=
  let plc := x.plc.exchangeChunk net request loop.area loop.i loop.n
  { plc := plc, place := .next (loop.next plc.pduMaxLength) rest }

/-- What happens on a connection without `Read_IQM_Bytes`. A thread that sends waits for `lockObj`. -/
def Poller.goOn (net : Net σ) (x : Poller σ) : PollerEvent σ → Poller σ
  | .poll =>
    match x.place with
    | .between rest => x.between net rest
    | _ => x
  | .connected sock =>
    if x.place = .between [] ∧ x.plc.state = 0 then
      { x with plc := { x.plc with sock := sock, state := 1 } }
    else x
  | .write area tag =>
    if x.place.locked then x
    else { x with plc := LockedCall.step net x.plc (.write area tag) }
  | .registerTag counter tagName => { x with plc := (x.plc.s7RegisterTag counter tagName).2 }
  | .close => { x with plc := x.plc.sockClose net }

/-! ## Any number of them -/

/-- The connections, and the request they share. -/
structure Pollers (ι : Type v) (σ : Type u) where
  pollers : ι → Poller σ
  readIqm : List UInt8 := readIqmBytes

/-- The objects when their polling threads start. -/
def Pollers.start {ι : Type v} (plcs : ι → S7Plc σ) : Pollers ι σ where
  pollers p := { plc := plcs p }

variable {ι : Type v} [DecidableEq ι]

/-- One of the connections has become another. -/
def Pollers.set (s : Pollers ι σ) (p : ι) (x : Poller σ) : Pollers ι σ :=
  { s with pollers := Function.update s.pollers p x }

/-- A poller that is stored leaves the shared request. -/
@[simp] theorem Pollers.set_readIqm (s : Pollers ι σ) (p : ι) (x : Poller σ) :
    (s.set p x).readIqm = s.readIqm := rfl

/-- A poller that is stored is there. -/
@[simp] theorem Pollers.set_self (s : Pollers ι σ) (p : ι) (x : Poller σ) :
    (s.set p x).pollers p = x := by
  simp only [Pollers.set, Function.update_self]

/-- A poller that is stored leaves the others. -/
theorem Pollers.set_of_ne (s : Pollers ι σ) {p q : ι} (hne : q ≠ p) (x : Poller σ) :
    (s.set p x).pollers q = s.pollers q := by
  simp only [Pollers.set, Function.update_of_ne hne]

/-- Something happens on a connection: a polling thread fills in the shared request, sends what
stands there by now, or does neither. -/
def Pollers.step (net : Net σ) (s : Pollers ι σ) (l : ι × PollerEvent σ) : Pollers ι σ :=
  let x := s.pollers l.1
  match l.2, x.place with
  | .poll, .chunk loop rest =>
    { s.set l.1 { x with place := .filled loop rest } with
      readIqm := fillRequest s.readIqm loop.area loop.i loop.n }
  | .poll, .filled loop rest => s.set l.1 (x.exchange net s.readIqm loop rest)
  | event, _ => s.set l.1 (x.goOn net event)

/-- The next step sends no request but its own: what is sent says the area, the start and the
quantity that this poller has filled in, and what it copies is what `S7_read` of that range copies. -/
structure Pollers.SendsOwn (net : Net σ) (s : Pollers ι σ) (l : ι × PollerEvent σ) : Prop where
  encodes : ∀ loop rest, l.2 = .poll → (s.pollers l.1).place = .filled loop rest →
    s.readIqm = readRequest loop.area loop.i loop.n
  copies : ∀ loop rest, l.2 = .poll → (s.pollers l.1).place = .filled loop rest →
    ((s.step net l).pollers l.1).plc = (s.pollers l.1).plc.s7ReadChunk net loop.area loop.i loop.n

/-- Who has filled in a request last, and which. -/
def Pollers.noteFill (s : Pollers ι σ) (l : ι × PollerEvent σ) (h : Option (ι × ChunkLoop)) :
    Option (ι × ChunkLoop) :=
  match l.2, (s.pollers l.1).place with
  | .poll, .chunk loop _ => some (l.1, loop)
  | _, _ => h

/-- A poller that sends is the last to have filled in a request, or the last has filled in the same
bytes. -/
def Pollers.FilledLast (x : Pollers ι σ × Option (ι × ChunkLoop)) (l : ι × PollerEvent σ) : Prop :=
  ∀ loop rest, l.2 = .poll → (x.1.pollers l.1).place = .filled loop rest →
    ∀ last ∈ x.2, last.1 = l.1 ∨ last.2.request = loop.request

/-! ## What a step does -/

/-- A poller goes on to a chunk or to the next area. -/
theorem Place.next_cases (loop : ChunkLoop) (rest : List Area) :
    Place.next loop rest = .between rest ∨ Place.next loop rest = .chunk loop rest := by
  rw [Place.next]
  split
  · exact .inl rfl
  · exact .inr rfl

/-- A poller that goes on has not filled in the request yet. -/
theorem Place.next_ne_filled {loop loop' : ChunkLoop} {rest rest' : List Area} :
    Place.next loop rest ≠ .filled loop' rest' := by
  rcases Place.next_cases loop rest with hnext | hnext <;> rw [hnext] <;> exact Place.noConfusion

/-- A poller has a request filled in only by filling it in. -/
theorem goOn_filled {net : Net σ} {x : Poller σ} {event : PollerEvent σ} {loop : ChunkLoop}
    {rest : List Area} (h : (x.goOn net event).place = .filled loop rest) :
    x.place = .filled loop rest := by
  obtain ⟨plc, place⟩ := x
  cases event with
  | poll =>
    cases place with
    | between left =>
      cases left with
      | nil =>
        simp only [Poller.goOn, Poller.between] at h
        split at h
        · cases h
        split at h
        · cases h
        · cases h
      | cons area left =>
        simp only [Poller.goOn, Poller.between] at h
        split at h
        · cases h
        split at h
        · cases h
        · exact absurd h Place.next_ne_filled
    | chunk loop' left => cases h
    | filled loop' left => exact h
    | ended => cases h
  | connected sock =>
    simp only [Poller.goOn] at h
    split at h
    · exact h
    · exact h
  | write area tag =>
    simp only [Poller.goOn] at h
    split at h
    · exact h
    · exact h
  | registerTag counter tagName => exact h
  | close => exact h

/-- The parts of a poller, with `Read_IQM_Bytes` as the cell it fills and uses. -/
def Poller.part (net : Net σ) (event : PollerEvent σ) (x : Poller σ) :
    Scratch.Part (Poller σ) (List UInt8) :=
  match event, x.place with
  | .poll, .chunk loop rest => .fill loop.request { x with place := .filled loop rest }
  | .poll, .filled loop rest => .use fun request => x.exchange net request loop rest
  | event, _ => .keep (x.goOn net event)

/-- What a step does: the request is filled in, sent, or left alone. -/
theorem Pollers.step_cases (net : Net σ) (s : Pollers ι σ) (l : ι × PollerEvent σ)
    (h : Option (ι × ChunkLoop)) :
    (∃ loop rest, l.2 = .poll ∧ (s.pollers l.1).place = .chunk loop rest ∧
      (s.pollers l.1).part net l.2 = .fill loop.request { s.pollers l.1 with place := .filled loop rest } ∧
      s.noteFill l h = some (l.1, loop) ∧
      s.step net l =
        { s.set l.1 { s.pollers l.1 with place := .filled loop rest } with
          readIqm := fillRequest s.readIqm loop.area loop.i loop.n }) ∨
    (∃ loop rest, l.2 = .poll ∧ (s.pollers l.1).place = .filled loop rest ∧
      (s.pollers l.1).part net l.2 =
        .use (fun request => (s.pollers l.1).exchange net request loop rest) ∧
      s.noteFill l h = h ∧
      s.step net l = s.set l.1 ((s.pollers l.1).exchange net s.readIqm loop rest)) ∨
    (∀ loop rest, l.2 = .poll → (s.pollers l.1).place ≠ .chunk loop rest ∧
        (s.pollers l.1).place ≠ .filled loop rest) ∧
      (s.pollers l.1).part net l.2 = .keep ((s.pollers l.1).goOn net l.2) ∧ s.noteFill l h = h ∧
      s.step net l = s.set l.1 ((s.pollers l.1).goOn net l.2) := by
  obtain ⟨p, event⟩ := l
  unfold Pollers.step Pollers.noteFill Poller.part
  simp only
  cases event with
  | poll =>
    cases hplace : (s.pollers p).place with
    | between rest =>
      exact .inr (.inr ⟨fun _ _ _ => ⟨Place.noConfusion, Place.noConfusion⟩, rfl, rfl, rfl⟩)
    | chunk loop rest => exact .inl ⟨loop, rest, rfl, rfl, rfl, rfl, rfl⟩
    | filled loop rest => exact .inr (.inl ⟨loop, rest, rfl, rfl, rfl, rfl, rfl⟩)
    | ended =>
      exact .inr (.inr ⟨fun _ _ _ => ⟨Place.noConfusion, Place.noConfusion⟩, rfl, rfl, rfl⟩)
  | _ => exact .inr (.inr ⟨fun _ _ hpoll => (nomatch hpoll), rfl, rfl, rfl⟩)

/-- A step leaves the other connections alone. -/
theorem Pollers.step_of_ne (net : Net σ) (s : Pollers ι σ) {l : ι × PollerEvent σ} {p : ι}
    (hne : p ≠ l.1) : (s.step net l).pollers p = s.pollers p := by
  rcases s.step_cases net l none with
    ⟨_, _, -, -, -, -, hstep⟩ | ⟨_, _, -, -, -, -, hstep⟩ | ⟨-, -, -, hstep⟩
  · rw [hstep]
    exact s.set_of_ne hne _
  · rw [hstep]
    exact s.set_of_ne hne _
  · rw [hstep]
    exact s.set_of_ne hne _

/-! ## Who has filled in the request -/

/-- The request is the one filled in last, and a poller that has filled one in and not sent it has
filled in no other since. -/
structure Filled (x : Pollers ι σ × Option (ι × ChunkLoop)) : Prop where
  bytes : x.1.readIqm = (x.2.map fun last => last.2.request).getD readIqmBytes
  last : ∀ p loop rest, (x.1.pollers p).place = .filled loop rest →
    ∃ last, x.2 = some last ∧ (last.1 = p → last.2 = loop)

/-- Every step keeps who filled in the request last. -/
theorem filled_step (net : Net σ) {x : Pollers ι σ × Option (ι × ChunkLoop)} (hx : Filled x)
    (l : ι × PollerEvent σ) : Filled (watch (Pollers.step net) Pollers.noteFill x l) := by
  obtain ⟨s, h⟩ := x
  obtain ⟨hbytes, hlast⟩ := hx
  have htemplate : Template s.readIqm := by
    rw [hbytes]
    cases h with
    | none => exact template_readIqmBytes
    | some last => exact template_request last.2
  have hother : ∀ {p loop rest}, p ≠ l.1 → ((s.step net l).pollers p).place = .filled loop rest →
      (s.pollers p).place = .filled loop rest := by
    intro p loop rest hne hp
    rwa [s.step_of_ne net hne] at hp
  rw [watch]
  rcases s.step_cases net l h with
    ⟨loop, rest, -, -, -, hnote, hstep⟩ | ⟨loop, rest, -, -, -, hnote, hstep⟩ |
    ⟨-, -, hnote, hstep⟩
  · simp only [hnote, hstep]
    refine ⟨htemplate loop, fun p loop' rest' hp => ⟨_, rfl, ?_⟩⟩
    rintro rfl
    rw [Pollers.set_self] at hp
    exact (Place.filled.inj hp).1
  · simp only [hnote]
    refine ⟨by rw [hstep]; exact hbytes, fun p loop' rest' hp => ?_⟩
    by_cases hl : p = l.1
    · subst hl
      rw [hstep, Pollers.set_self] at hp
      exact absurd hp Place.next_ne_filled
    · exact hlast p loop' rest' (hother hl hp)
  · simp only [hnote]
    refine ⟨by rw [hstep]; exact hbytes, fun p loop' rest' hp => ?_⟩
    by_cases hl : p = l.1
    · subst hl
      rw [hstep, Pollers.set_self] at hp
      exact hlast l.1 loop' rest' (goOn_filled hp)
    · exact hlast p loop' rest' (hother hl hp)

/-- What a poller is left with that sends its own request. -/
theorem step_own (net : Net σ) {s : Pollers ι σ} {p : ι} {loop : ChunkLoop} {rest : List Area}
    (hplace : (s.pollers p).place = .filled loop rest)
    (hown : s.readIqm = readRequest loop.area loop.i loop.n) :
    ((s.step net (p, .poll)).pollers p).plc =
      (s.pollers p).plc.s7ReadChunk net loop.area loop.i loop.n := by
  have hstep : s.step net (p, .poll) =
      s.set p ((s.pollers p).exchange net s.readIqm loop rest) := by
    simp only [Pollers.step, hplace]
  rw [hstep, Pollers.set_self, hown, ← exchangeChunk_readRequest]
  rfl

/-- The copy is a poller's own when the request is. -/
theorem Pollers.sendsOwn_iff_encodes (net : Net σ) (s : Pollers ι σ) (l : ι × PollerEvent σ) :
    s.SendsOwn net l ↔ ∀ loop rest, l.2 = .poll → (s.pollers l.1).place = .filled loop rest →
      s.readIqm = loop.request := by
  constructor
  · exact fun h => h.encodes
  · intro h
    refine ⟨h, fun loop rest hpoll hplace => ?_⟩
    obtain ⟨p, event⟩ := l
    obtain rfl : event = .poll := hpoll
    exact step_own net hplace (h loop rest rfl hplace)

/-- A step sends the poller's own request exactly when that was filled in last. -/
theorem sendsOwn_iff_filledLast (net : Net σ) {x : Pollers ι σ × Option (ι × ChunkLoop)}
    (hx : Filled x) (l : ι × PollerEvent σ) : x.1.SendsOwn net l ↔ Pollers.FilledLast x l := by
  rw [Pollers.sendsOwn_iff_encodes]
  constructor
  · intro hown loop rest hpoll hplace last hmem
    have hsent := hown loop rest hpoll hplace
    rw [hx.bytes, Option.mem_def.mp hmem] at hsent
    exact .inr hsent
  · intro hfilled loop rest hpoll hplace
    obtain ⟨last, hsome, hself⟩ := hx.last l.1 loop rest hplace
    have hsent : x.1.readIqm = last.2.request := by
      rw [hx.bytes, hsome]
      rfl
    rw [hsent]
    rcases hfilled loop rest hpoll hplace last hsome with hp | hsame
    · rw [hself hp]
    · exact hsame

/-- In every interleaving, every request a poller sends is the one it has filled in itself, and what
it copies is what it has asked for, if and only if before each sending nobody else was the last to
fill in a request, unless it was the same. -/
theorem sends_own_requests (net : Net σ) (plcs : ι → S7Plc σ) (ops : List (ι × PollerEvent σ)) :
    Meets (Pollers.step net) (Pollers.SendsOwn net) (.start plcs) ops ↔
      Meets (watch (Pollers.step net) Pollers.noteFill) Pollers.FilledLast (.start plcs, none) ops := by
  have hstart : Filled (Pollers.start plcs, none) := ⟨rfl, fun _ _ _ hno => (nomatch hno)⟩
  rw [← meets_watch (Pollers.step net) Pollers.noteFill _ (Pollers.start plcs, none)]
  exact meets_iff_meets (watch (Pollers.step net) Pollers.noteFill) (J := Filled)
    (fun _ l hx => filled_step net hx l) (fun _ l hx => sendsOwn_iff_filledLast net hx l) hstart ops

/-- A controller whose memory is 0 up to byte 10 and 0xFF from there. -/
def onFromTen : Controller := { memory := fun _ k => decide (80 ≤ k) }

/-- Two connections that are ready, each to a controller of its own. -/
def twoReady : Bool → S7Plc Controller := fun _ =>
  { S7Plc.new Controller.net 0 [] with sock := onFromTen, state := 2 }

/-- MB0 on one connection and MB10 on the other; their polling threads come to the chunk of the
flags, and both fill in the request. -/
def bothFilled : List (Bool × PollerEvent Controller) :=
  [(false, .registerTag 0 "MB0".toList), (true, .registerTag 1 "MB10".toList),
    (false, .poll), (false, .poll), (false, .poll), (false, .poll),
    (true, .poll), (true, .poll), (true, .poll), (true, .poll),
    (false, .poll), (true, .poll)]

/-- Then the first sends the request of the second, and keeps for MB0 what stands at MB10. -/
theorem request_of_another_poller :
    ¬ Meets (Pollers.step Controller.net) (Pollers.SendsOwn Controller.net) (.start twoReady)
        (bothFilled ++ [(false, .poll)]) ∧
      (((run (Pollers.step Controller.net) (.start twoReady)
        (bothFilled ++ [(false, .poll)])).pollers false).plc.block .M).memImage = [0xFF] := by
  constructor
  · intro h
    have hplace : ((run (Pollers.step Controller.net) (.start twoReady) bothFilled).pollers
        false).place = .filled ⟨.M, 0, 1, 0, 1⟩ [] := by decide +kernel
    have hown := ((meets_iff_split (Pollers.step Controller.net) _ _ _).mp h bothFilled (false, .poll)
      [] rfl).encodes _ _ rfl hplace
    have hsent : (run (Pollers.step Controller.net) (.start twoReady) bothFilled).readIqm =
        readRequest .M 10 1 := by decide +kernel
    exact absurd (hsent.symm.trans hown) (by decide)
  · decide +kernel

/-! ## What a request says -/

/-- The chunk lies where two bytes of quantity and an address of the controller reach. -/
structure ChunkLoop.InRange (loop : ChunkLoop) : Prop where
  i_nonneg : 0 ≤ loop.i
  i_lt : loop.i < 65536
  n_nonneg : 0 ≤ loop.n
  n_lt : loop.n < 65536

/-- A request for a chunk in range is read back as one. -/
theorem ChunkLoop.InRange.parse {loop : ChunkLoop} (h : loop.InRange) :
    parseRequest loop.request = some (.read loop.area loop.i.toNat loop.n.toNat) := by
  obtain ⟨hi, hi', hn, hn'⟩ := h
  rw [← parse_readRequest (show loop.i.toNat < 65536 by omega) (show loop.n.toNat < 65536 by omega),
    Int.toNat_of_nonneg hi, Int.toNat_of_nonneg hn, ChunkLoop.request]

/-- Two chunks have the same request only when they ask for the same range of the same area. -/
theorem ChunkLoop.request_inj {loop loop' : ChunkLoop} (h : loop.InRange) (h' : loop'.InRange)
    (hsame : loop.request = loop'.request) :
    loop.area = loop'.area ∧ loop.i = loop'.i ∧ loop.n = loop'.n := by
  have hparsed := h.parse
  rw [hsame, h'.parse] at hparsed
  obtain ⟨harea, hi, hn⟩ := Request.read.inj (Option.some.inj hparsed)
  obtain ⟨hi₀, -, hn₀, -⟩ := h
  obtain ⟨hi₁, -, hn₁, -⟩ := h'
  exact ⟨harea.symm, by omega, by omega⟩

/-- Over a link that is up, a poller that sends its own request copies what its controller holds in
the range it meant to read. -/
theorem own_chunk_copied {s : Pollers ι Controller} {p : ι} {loop : ChunkLoop} {rest : List Area}
    (hown : s.SendsOwn Controller.net (p, .poll)) (hplace : (s.pollers p).place = .filled loop rest)
    (hup : (s.pollers p).plc.sock.next.isUp = true) (hrange : loop.InRange) (hfits : loop.n ≤ 975) :
    (((s.step Controller.net (p, .poll)).pollers p).plc.block loop.area).memImage =
      overwrite ((s.pollers p).plc.block loop.area).memImage
        (loop.i - ((s.pollers p).plc.block loop.area).start).toNat
        (window ((s.pollers p).plc.sock.memory loop.area) loop.i.toNat loop.n.toNat) := by
  obtain ⟨hi, hi', hn, -⟩ := hrange
  obtain ⟨sock, buff, hchunk, -, -⟩ := s7ReadChunk_up hup
    (show loop.i.toNat < 65536 by omega) (show loop.n.toNat ≤ 975 by omega)
  rw [Int.toNat_of_nonneg hi, Int.toNat_of_nonneg hn] at hchunk
  rw [hown.copies loop rest rfl hplace, hchunk, S7Plc.block_setBlock, if_pos rfl]

/-! ## As if each had a request of its own -/

/-- The parties and the cell. -/
def Pollers.shared (s : Pollers ι σ) : Scratch.Shared ι (Poller σ) (List UInt8) :=
  ⟨s.pollers, s.readIqm⟩

/-- The pollers are parties that share the request. -/
theorem Pollers.step_shared (net : Net σ) {s : Pollers ι σ} (h : Template s.readIqm)
    (l : ι × PollerEvent σ) :
    (s.step net l).shared = s.shared.step (Poller.part net) l := by
  rw [Scratch.Shared.step]
  rcases s.step_cases net l none with
    ⟨loop, rest, -, -, hpart, -, hstep⟩ | ⟨loop, rest, -, -, hpart, -, hstep⟩ | ⟨-, hpart, -, hstep⟩
  · simp only [Pollers.shared, hpart, hstep, Pollers.set, h loop]
  · simp only [Pollers.shared, hpart, hstep, Pollers.set]
  · simp only [Pollers.shared, hpart, hstep, Pollers.set]

/-- Every step leaves the shared request a template. -/
theorem Pollers.step_template (net : Net σ) {s : Pollers ι σ} (h : Template s.readIqm)
    (l : ι × PollerEvent σ) : Template (s.step net l).readIqm := by
  rcases s.step_cases net l none with
    ⟨loop, rest, -, -, -, -, hstep⟩ | ⟨loop, rest, -, -, -, -, hstep⟩ | ⟨-, -, -, hstep⟩
  · rw [hstep]
    simp only [h loop]
    exact template_request loop
  · rw [hstep]
    exact h
  · rw [hstep]
    exact h

/-- What each poller has filled in last. -/
def Pollers.noteOwn (net : Net σ) (s : Pollers ι σ) (l : ι × PollerEvent σ) (own : ι → List UInt8) :
    ι → List UInt8 :=
  Scratch.noteFill (Poller.part net) s.shared l own

/-- A poller that is to send has filled in its request last. -/
structure Filling (x : Pollers ι σ × (ι → List UInt8)) : Prop where
  template : Template x.1.readIqm
  own : ∀ p loop rest, (x.1.pollers p).place = .filled loop rest → x.2 p = loop.request

/-- Every step keeps what each poller filled in. -/
theorem filling_step (net : Net σ) {x : Pollers ι σ × (ι → List UInt8)} (hx : Filling x)
    (l : ι × PollerEvent σ) : Filling (watch (Pollers.step net) (Pollers.noteOwn net) x l) := by
  obtain ⟨s, own⟩ := x
  obtain ⟨htemplate, hown⟩ := hx
  refine ⟨s.step_template net htemplate l, fun p loop' rest' hp => ?_⟩
  simp only [watch, Pollers.noteOwn, Scratch.noteFill, Pollers.shared] at hp ⊢
  by_cases hl : p = l.1
  · subst hl
    rcases s.step_cases net l none with
      ⟨loop, rest, -, -, hpart, -, hstep⟩ | ⟨loop, rest, -, -, hpart, -, hstep⟩ |
      ⟨-, hpart, -, hstep⟩
    · simp only [hpart, hstep, Pollers.set_self, Function.update_self] at hp ⊢
      rw [(Place.filled.inj hp).1]
    · rw [hstep, Pollers.set_self] at hp
      exact absurd hp Place.next_ne_filled
    · rw [hstep, Pollers.set_self] at hp
      simp only [hpart]
      exact hown l.1 loop' rest' (goOn_filled hp)
  · rw [s.step_of_ne net hl] at hp
    exact (Scratch.noteFill_of_ne (Poller.part net) s.shared hl own).trans (hown p loop' rest' hp)

/-- A step sends the poller's own request exactly when it finds what the poller has filled in. -/
theorem sendsOwn_iff_undisturbed (net : Net σ) {x : Pollers ι σ × (ι → List UInt8)}
    (hx : Filling x) (l : ι × PollerEvent σ) :
    x.1.SendsOwn net l ↔ Scratch.Undisturbed (Poller.part net) (x.1.shared, x.2) l := by
  obtain ⟨s, own⟩ := x
  have hown := hx.own
  rw [Pollers.sendsOwn_iff_encodes]
  simp only [Scratch.Undisturbed, Pollers.shared] at hown ⊢
  rcases s.step_cases net l none with
    ⟨loop, rest, -, hplace, hpart, -, -⟩ | ⟨loop, rest, hpoll, hplace, hpart, -, -⟩ |
    ⟨hnot, hpart, -, -⟩
  · simp only [hpart, iff_true]
    intro _ _ _ hno
    cases hplace.symm.trans hno
  · simp only [hpart]
    rw [hown l.1 loop rest hplace]
    constructor
    · exact fun h => h loop rest hpoll hplace
    · intro h loop' rest' _ hplace'
      rw [(Place.filled.inj (hplace'.symm.trans hplace)).1]
      exact h
  · simp only [hpart, iff_true]
    exact fun loop rest hpoll hno => absurd hno (hnot loop rest hpoll).2

/-- In every run the requests sent are the pollers' own exactly when nothing disturbs them. -/
theorem sends_own_iff_undisturbed (net : Net σ) (plcs : ι → S7Plc σ)
    (ops : List (ι × PollerEvent σ)) :
    Meets (Pollers.step net) (Pollers.SendsOwn net) (.start plcs) ops ↔
      Meets (watch (Scratch.Shared.step (Poller.part net)) (Scratch.noteFill (Poller.part net)))
        (Scratch.Undisturbed (Poller.part net)) ((Pollers.start plcs).shared, fun _ => readIqmBytes)
        ops := by
  have hstart : Filling (Pollers.start plcs, fun _ => readIqmBytes) :=
    ⟨template_readIqmBytes, fun _ _ _ hno => (nomatch hno)⟩
  rw [← meets_watch (Pollers.step net) (Pollers.noteOwn net) _
    (Pollers.start plcs, fun _ => readIqmBytes)]
  rw [meets_iff_meets (watch (Pollers.step net) (Pollers.noteOwn net)) (J := Filling)
    (fun _ l hx => filling_step net hx l) (fun _ l hx => sendsOwn_iff_undisturbed net hx l) hstart ops]
  exact meets_view (watch (Pollers.step net) (Pollers.noteOwn net))
    (watch (Scratch.Shared.step (Poller.part net)) (Scratch.noteFill (Poller.part net)))
    (fun x : Pollers ι σ × (ι → List UInt8) => (x.1.shared, x.2)) (J := Filling)
    (fun _ l hx => filling_step net hx l)
    (fun x l hx => Prod.ext (x.1.step_shared net hx.template l) rfl) hstart ops

/-- Where every request sent is the poller's own, each poller goes on as if it had `Read_IQM_Bytes`
for itself, and how the pollers are interleaved makes no difference. -/
theorem poller_alone {net : Net σ} {plcs : ι → S7Plc σ} {ops : List (ι × PollerEvent σ)}
    (h : Meets (Pollers.step net) (Pollers.SendsOwn net) (.start plcs) ops) (p : ι) :
    (run (Pollers.step net) (.start plcs) ops).pollers p =
      (run (Scratch.alone (Poller.part net)) ({ plc := plcs p }, readIqmBytes)
        (Scratch.labelsOf p ops)).1 := by
  have hshared : (run (Pollers.step net) (.start plcs) ops).shared =
      run (Scratch.Shared.step (Poller.part net)) (Pollers.start plcs).shared ops :=
    run_view (Pollers.step net) _ Pollers.shared (J := fun s => Template s.readIqm)
      (fun s l hs => s.step_template net hs l) (fun s l hs => s.step_shared net hs l)
      template_readIqmBytes ops
  have halone := Scratch.run_alone (Poller.part net)
    ((sends_own_iff_undisturbed net plcs ops).mp h) p
  have hparty := congrArg Prod.fst halone
  simp only [Scratch.seen, run_watch_fst, ← hshared] at hparty
  exact hparty

/-! ## A poller alone -/

/-- A poller alone sends what it has filled in. -/
theorem chunk_alone (net : Net σ) (plc : S7Plc σ) (loop : ChunkLoop) (rest : List Area)
    (r : List UInt8) :
    run (Scratch.alone (Poller.part net)) ({ plc := plc, place := .chunk loop rest }, r)
        [.poll, .poll] =
      ({ plc := plc.s7ReadChunk net loop.area loop.i loop.n
         place := .next (loop.next plc.pduMaxLength) rest }, loop.request) := by
  have hpdu : (plc.exchangeChunk net loop.request loop.area loop.i loop.n).pduMaxLength =
      plc.pduMaxLength := s7ReadChunk_pduMaxLength net plc loop.area loop.i loop.n
  calc run (Scratch.alone (Poller.part net)) ({ plc := plc, place := .chunk loop rest }, r)
        [.poll, .poll]
      = (({ plc := plc, place := .filled loop rest } : Poller σ).exchange net loop.request loop rest,
          loop.request) := rfl
    _ = ({ plc := plc.s7ReadChunk net loop.area loop.i loop.n
           place := .next (loop.next plc.pduMaxLength) rest }, loop.request) := by
        rw [Poller.exchange, hpdu, ← exchangeChunk_readRequest]
        rfl

/-- Its chunk loop is the one of `S7_read(mem)`. -/
theorem chunks_alone (net : Net σ) (rest : List Area) (fuel : Nat) (loop : ChunkLoop)
    {plc plc' : S7Plc σ} (r : List UInt8)
    (h : S7Plc.readChunks net loop.area loop.start loop.quantity fuel loop.i loop.n plc = some plc') :
    ∃ n r', run (Scratch.alone (Poller.part net)) ({ plc := plc, place := .next loop rest }, r)
      (List.replicate n .poll) = ({ plc := plc', place := .between rest }, r') := by
  induction fuel generalizing loop plc r with
  | zero =>
    rw [S7Plc.readChunks] at h
    split at h
    · rename_i hdone
      obtain rfl := Option.some.inj h
      exact ⟨0, r, by rw [Place.next, if_pos hdone]; rfl⟩
    · cases h
  | succ fuel ih =>
    rw [S7Plc.readChunks] at h
    by_cases hdone : loop.n = 0
    · rw [if_pos hdone] at h
      obtain rfl := Option.some.inj h
      exact ⟨0, r, by rw [Place.next, if_pos hdone]; rfl⟩
    · rw [if_neg hdone] at h
      simp only [s7ReadChunk_pduMaxLength] at h
      obtain ⟨n, r', hrest⟩ := ih (loop.next plc.pduMaxLength) loop.request h
      refine ⟨n + 2, r', ?_⟩
      have htwo : List.replicate (n + 2) (PollerEvent.poll (σ := σ)) =
          [.poll, .poll] ++ List.replicate n .poll := rfl
      rw [htwo, run_append, Place.next, if_neg hdone, chunk_alone]
      exact hrest

/-- Alone, a poller reads a block as `S7_read(mem)` does. -/
theorem block_alone (net : Net σ) (rest : List Area) {fuel : Nat} {area : Area} {plc plc' : S7Plc σ}
    (r : List UInt8) (h : plc.s7ReadBlock net fuel area = some plc')
    (hresize : (plc.block area).resized = true → 0 ≤ (plc.block area).quantity) :
    ∃ n r', run (Scratch.alone (Poller.part net)) ({ plc := plc, place := .between (area :: rest) }, r)
      (List.replicate n .poll) = ({ plc := plc', place := .between rest }, r') := by
  have hfirst : Scratch.alone (Poller.part net)
      ({ plc := plc, place := .between (area :: rest) }, r) .poll =
        (({ plc := plc, place := .between (area :: rest) } : Poller σ).between net (area :: rest),
          r) := rfl
  by_cases hempty : (plc.block area).quantity = 0
  · rw [S7Plc.s7ReadBlock, if_pos hempty] at h
    obtain rfl := Option.some.inj h
    refine ⟨1, r, ?_⟩
    rw [List.replicate_one, run_cons, hfirst, Poller.between, if_pos hempty]
    rfl
  · have hfits : ¬ ((plc.block area).resized = true ∧ (plc.block area).quantity < 0) :=
      fun hthrow => absurd (hresize hthrow.1) (by omega)
    have hread : S7Plc.readChunks net area (plc.block area).start (plc.block area).quantity fuel
        (plc.block area).start (min (plc.pduMaxLength - 25) (plc.block area).quantity)
        (plc.setBlock area (plc.block area).snapshot) = some plc' := by
      rw [← h, s7ReadBlock_eq net fuel plc area hempty, readChunks_eq, S7Plc.setBlock_pduMaxLength]
      rfl
    obtain ⟨n, r', hrest⟩ := chunks_alone net rest fuel
      ⟨area, (plc.block area).start, (plc.block area).quantity, (plc.block area).start,
        min (plc.pduMaxLength - 25) (plc.block area).quantity⟩ r hread
    refine ⟨n + 1, r', ?_⟩
    rw [List.replicate_succ, run_cons, hfirst, Poller.between, if_neg hempty, if_neg hfits]
    exact hrest

/-! ## One lock for all -/

/-- A request is filled in only while no other poller is between filling in and sending: what a lock
of the class would see to. -/
def Pollers.Exclusive (s : Pollers ι σ) (l : ι × PollerEvent σ) : Prop :=
  ∀ loop rest, l.2 = .poll → (s.pollers l.1).place = .chunk loop rest →
    ∀ q, q ≠ l.1 → (s.pollers q).place.locked = false

/-- A poller that holds the lock has filled in its request. -/
theorem Place.exists_of_locked {place : Place} (h : place.locked = true) :
    ∃ loop rest, place = .filled loop rest := by
  cases place with
  | filled loop rest => exact ⟨loop, rest, rfl⟩
  | _ => cases h

/-- A poller relies on the request while it holds its `lockObj`. -/
theorem poller_reliance (net : Net σ) :
    Scratch.Reliance (Poller.part net) fun x => x.place.locked where
  use {event x next} h := by
    unfold Poller.part at h
    split at h
    · cases h
    · rename_i loop rest hplace
      rw [hplace]
      rfl
    · cases h
  keep {event x next} h hnext := by
    unfold Poller.part at h
    split at h
    · cases h
    · cases h
    · obtain rfl := Scratch.Part.keep.inj h
      obtain ⟨loop, rest, hplace⟩ := Place.exists_of_locked hnext
      rw [goOn_filled hplace]
      rfl

/-- With one lock for all, every request sent is the poller's own. -/
theorem sends_own_of_exclusive {net : Net σ} {plcs : ι → S7Plc σ} {ops : List (ι × PollerEvent σ)}
    (h : Meets (Pollers.step net) Pollers.Exclusive (.start plcs) ops) :
    Meets (Pollers.step net) (Pollers.SendsOwn net) (.start plcs) ops := by
  refine (sends_own_iff_undisturbed net plcs ops).mpr ?_
  have hstart : Scratch.Intact (fun x : Poller σ => x.place.locked)
      ((Pollers.start plcs).shared, fun _ => readIqmBytes) := fun _ _ => rfl
  refine Scratch.undisturbed_of_exclusive (Poller.part net) (poller_reliance net) hstart ?_
  have hshared : ∀ (s : Pollers ι σ) (l : ι × PollerEvent σ), s.Exclusive l →
      Scratch.Exclusive (Poller.part net) (fun x => x.place.locked) s.shared l := by
    intro s l hexclusive
    rw [Scratch.Exclusive]
    rcases s.step_cases net l none with
      ⟨loop, rest, hpoll, hplace, hpart, -, -⟩ | ⟨loop, rest, -, -, hpart, -, -⟩ | ⟨-, hpart, -, -⟩
    · simp only [Pollers.shared, hpart]
      exact hexclusive loop rest hpoll hplace
    · simp only [Pollers.shared, hpart]
    · simp only [Pollers.shared, hpart]
  refine (meets_view (Pollers.step net) (Scratch.Shared.step (Poller.part net)) Pollers.shared
    (J := fun s => Template s.readIqm) (fun s l hs => s.step_template net hs l)
    (fun s l hs => s.step_shared net hs l) template_readIqmBytes ops).mp ?_
  exact h.mono _ (J := fun _ => True) (fun _ _ _ _ => trivial) (fun s l _ hl => hshared s l hl) trivial

end OipComms.S7
