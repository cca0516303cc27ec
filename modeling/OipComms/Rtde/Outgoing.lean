import OipComms.Lib.Run
import OipComms.Rtde.Session

/-!
# The outgoing stream

The controller reads a stream of frames, and a frame that stops short makes it read the next one
from the middle. During the handshake the socket blocks and every frame goes out whole. From
`start` on the socket does not block: `send_frame` gives up on would-block even after the socket
took part of the frame, nobody keeps the missing part, and the next `rtde_tag_set` sends its own
frame from the beginning.

`Outgoing` records, for each frame a write handed to the socket, how much of it was taken;
`intact_iff_refused_after_cut` is the exact condition on the socket under which the stream stays
whole frames and one piece.
-/

namespace OipComms.Rtde

open BigEndian Framing Run

variable {V : Type} [GodotVariant V]

/-- A frame of the wire format: size, type and payload, of at most 65535 bytes. -/
def IsFrame (bytes : List UInt8) : Prop :=
  ∃ type payload, bytes = frame type payload ∧ 3 + payload.length ≤ 0xFFFF

/-- The bytes the controller has received on a group's connection. -/
def TagGroup.received (g : TagGroup) : List UInt8 :=
  ((g.rtdeImpl.bind RtdeTagGroupImpl.client).map Client.sent).getD []

/-- The socket of a group takes no byte of the next frame. -/
def TagGroup.refuses (g : TagGroup) : Bool :=
  match (g.rtdeImpl.bind RtdeTagGroupImpl.client).bind Client.socket with
  | some s => Rtde.refuses s.sends
  | none => true

/-- A group, with the frames handed to its socket and how many bytes of each were taken. -/
structure Outgoing where
  group : TagGroup
  log : List (List UInt8 × Nat) := []

/-- The frame a write hands to its socket, if it gets there. -/
def outgoingFrame (g : TagGroup) (w : CStr × V) : Option (List UInt8) :=
  match inputPackage g w.1 w.2 with
  | none => none
  | some payload =>
    if 0xFFFF < 3 + (payload.length + 1) then none
    else some (frame mtDataPackage ((g.rtdeImpl.getD {}).inputRecipeId :: payload))

/-- One write. -/
def Outgoing.step (s : Outgoing) (w : CStr × V) : Outgoing :=
  let group := rtdeTagSet w.1 w.2 s.group
  { group := group
    log := s.log ++ (outgoingFrame s.group w).toList.map fun f =>
      (f, group.received.length - s.group.received.length) }

/-- The frames the socket has taken bytes of. -/
def Outgoing.touched (s : Outgoing) : List (List UInt8) :=
  (s.log.filter fun e => 0 < e.2).map Prod.fst

/-- A frame was left unfinished. -/
def Outgoing.Cut (s : Outgoing) : Prop := ∃ e ∈ s.log, 0 < e.2 ∧ e.2 < e.1.length

/-- At every moment up to now the controller had received whole frames and at most one piece, in
the order of the calls, and after an unfinished frame not a byte of another. -/
structure Outgoing.Intact (s : Outgoing) : Prop where
  framed : ∀ piece, piece <+: s.group.received →
    ∃ done cut, piece = done.flatten ++ cut ∧
      (cut = [] ∧ done <+: s.touched ∨ ∃ f, cut <+: f ∧ done ++ [f] <+: s.touched)
  frames : ∀ f ∈ s.touched, IsFrame f
  nothingAfterCut : s.log.Pairwise fun e e' => 0 < e.2 → e.2 < e.1.length → e'.2 = 0

/-- A write that reaches the socket after an unfinished frame is refused its first byte. -/
def Outgoing.RefusedAfterCut (s : Outgoing) (w : CStr × V) : Prop :=
  (outgoingFrame s.group w).isSome = true → s.Cut → s.group.refuses = true

instance (s : Outgoing) : Decidable s.Cut :=
  inferInstanceAs (Decidable (∃ e ∈ s.log, 0 < e.2 ∧ e.2 < e.1.length))

instance (s : Outgoing) (w : CStr × V) : Decidable (s.RefusedAfterCut w) :=
  inferInstanceAs (Decidable (_ → s.Cut → _))

/-! ## One write -/

/-- What `send_frame` puts on the wire: a front part of the frame, nothing exactly when the socket
refuses. -/
theorem sendFrame_sent {c : Client} {s : Socket} (hsocket : c.socket = some s) (type : UInt8)
    (payload : List UInt8) (hsize : 3 + payload.length ≤ 0xFFFF) :
    ∃ n ≤ (frame type payload).length, (c.sendFrame type payload).2.sent =
      c.sent ++ (frame type payload).take n ∧ (n = 0 ↔ refuses s.sends = true) := by
  have hne : frame type payload ≠ [] := by
    rw [frame, Ne, List.append_eq_nil_iff]
    exact fun h => nomatch h.2
  obtain ⟨haccepted, _⟩ := sendLoop_accepted s.errno s.sends (frame type payload)
  have hnil := sendLoop_nil_iff s.errno s.sends hne
  rcases hloop : sendLoop s.errno s.sends (frame type payload) with ⟨done, accepted, e, sends⟩
  rw [hloop] at haccepted hnil
  refine ⟨accepted.length, haccepted.length_le, ?_, ?_⟩
  · rw [← List.prefix_iff_eq_take.mp haccepted]
    simp only [Client.sendFrame, hsocket, Nat.not_lt.mpr hsize, if_false, hloop]
    cases done <;> simp [Client.sent, hsocket]
  · rw [List.length_eq_zero_iff]
    exact hnil

/-- A group with an open connection. -/
def TagGroup.Open (g : TagGroup) : Prop :=
  ∃ impl c s, g.rtdeImpl = some impl ∧ impl.client = some c ∧ c.socket = some s

/-- A write hands the socket a front of its frame, all of it or what was taken. -/
theorem TagGroup.Open.step {g : TagGroup} (h : g.Open) (w : CStr × V) :
    (rtdeTagSet w.1 w.2 g).Open ∧
    match outgoingFrame g w with
    | none => (rtdeTagSet w.1 w.2 g).received = g.received
    | some f => IsFrame f ∧ ∃ n ≤ f.length,
        (rtdeTagSet w.1 w.2 g).received = g.received ++ f.take n ∧ (n = 0 ↔ g.refuses = true) := by
  obtain ⟨impl, c, s, himpl, hclient, hsocket⟩ := id h
  cases hpackage : inputPackage g w.1 w.2 with
  | none =>
    simp only [rtdeTagSet, outgoingFrame, hpackage, and_true]
    exact h
  | some payload =>
    have hreceived : g.received = c.sent := by
      simp only [TagGroup.received, himpl, hclient, Option.bind_some, Option.map_some,
        Option.getD_some]
    have hgroup : rtdeTagSet w.1 w.2 g = { g with rtdeImpl := some { impl with
        inputPayload := payload, client := some (c.sendInput impl.inputRecipeId payload).2 } } := by
      simp only [rtdeTagSet, hpackage, himpl, hclient, Option.getD_some]
    have hreceived' : (rtdeTagSet w.1 w.2 g).received =
        (c.sendInput impl.inputRecipeId payload).2.sent := by
      simp only [hgroup, TagGroup.received, Option.bind_some, Option.map_some, Option.getD_some]
    have hrefuses : g.refuses = Rtde.refuses s.sends := by
      simp only [TagGroup.refuses, himpl, hclient, hsocket, Option.bind_some]
    have hopen : (rtdeTagSet w.1 w.2 g).Open := by
      have hsome := sendFrame_socket mtDataPackage (impl.inputRecipeId :: payload) c
      rw [hsocket] at hsome
      obtain ⟨s', hs'⟩ := Option.isSome_iff_exists.mp hsome
      rw [hgroup]
      exact ⟨_, _, s', rfl, rfl, hs'⟩
    refine ⟨hopen, ?_⟩
    by_cases hlarge : 0xFFFF < 3 + (payload.length + 1)
    · have hsame : (c.sendInput impl.inputRecipeId payload).2.sent = c.sent := by
        simp only [Client.sendInput, Client.sendFrame, hsocket, List.length_cons, hlarge, if_true,
          Client.sent]
      simp only [outgoingFrame, hpackage, hlarge, if_true]
      rw [hreceived', hsame, hreceived]
    · obtain ⟨n, hn, hsent, hzero⟩ := sendFrame_sent hsocket mtDataPackage
        (impl.inputRecipeId :: payload) (Nat.not_lt.mp hlarge)
      simp only [outgoingFrame, hpackage, hlarge, if_false, himpl, Option.getD_some]
      refine ⟨⟨_, _, rfl, Nat.not_lt.mp hlarge⟩, n, hn, ?_, ?_⟩
      · rw [hreceived', hreceived]
        exact hsent
      · rw [hrefuses]
        exact hzero

/-! ## The log -/

/-- What every write keeps: the controller has received the parts taken, in order. -/
structure Outgoing.Logged (s : Outgoing) : Prop where
  isOpen : s.group.Open
  received : s.group.received = s.log.flatMap fun e => e.1.take e.2
  frames : ∀ e ∈ s.log, IsFrame e.1 ∧ e.2 ≤ e.1.length

/-- Nothing was taken after an unfinished frame. -/
def Outgoing.Quiet (s : Outgoing) : Prop :=
  s.log.Pairwise fun e e' => 0 < e.2 → e.2 < e.1.length → e'.2 = 0

/-- A write adds no entry, or one that is empty exactly when the socket refuses. -/
theorem Outgoing.Logged.step_cases {s : Outgoing} (h : s.Logged) (w : CStr × V) :
    (s.step w).Logged ∧
    match outgoingFrame s.group w with
    | none => (s.step w).log = s.log
    | some f => ∃ n, (s.step w).log = s.log ++ [(f, n)] ∧ (n = 0 ↔ s.group.refuses = true) := by
  obtain ⟨hopen, hwire⟩ := h.isOpen.step w
  cases hframe : outgoingFrame s.group w with
  | none =>
    rw [hframe] at hwire
    have hlog : (s.step w).log = s.log := by
      simp only [Outgoing.step, hframe, Option.toList_none, List.map_nil, List.append_nil]
    exact ⟨⟨hopen, by rw [hlog]; exact hwire.trans h.received, by rw [hlog]; exact h.frames⟩, hlog⟩
  | some f =>
    rw [hframe] at hwire
    obtain ⟨hf, n, hn, hreceived, hzero⟩ := hwire
    have hlog : (s.step w).log = s.log ++ [(f, n)] := by
      simp only [Outgoing.step, hframe, Option.toList_some, List.map_cons, List.map_nil, hreceived,
        List.length_append, List.length_take, Nat.min_eq_left hn, Nat.add_sub_cancel_left]
    refine ⟨⟨hopen, ?_, ?_⟩, n, hlog, hzero⟩
    · rw [hlog, List.flatMap_append, ← h.received, List.flatMap_singleton]
      exact hreceived
    · rw [hlog]
      intro e he
      rcases List.mem_append.mp he with he | he
      · exact h.frames e he
      · obtain rfl := List.mem_singleton.mp he
        exact ⟨hf, hn⟩

/-- What is quiet since a cut is intact. -/
theorem Outgoing.Quiet.intact {s : Outgoing} (hB : s.Logged) (hJ : s.Quiet) : s.Intact := by
  refine ⟨fun piece hpiece => ?_, fun f hf => ?_, hJ⟩
  · rw [hB.received] at hpiece
    exact prefix_flatten (hpiece.trans (flatten_taken hJ))
  · obtain ⟨e, he, rfl⟩ := List.mem_map.mp hf
    exact (hB.frames e (List.mem_of_mem_filter he)).1

/-- A write that is refused after a cut leaves it quiet. -/
theorem Outgoing.Quiet.step {s : Outgoing} (hB : s.Logged) (hJ : s.Quiet) {w : CStr × V}
    (hC : s.RefusedAfterCut w) : (s.step w).Quiet := by
  obtain ⟨_, hlog⟩ := hB.step_cases w
  cases hframe : outgoingFrame s.group w with
  | none =>
    rw [hframe] at hlog
    rw [Outgoing.Quiet, hlog]
    exact hJ
  | some f =>
    rw [hframe] at hlog
    obtain ⟨n, hlog, hzero⟩ := hlog
    rw [Outgoing.Quiet, hlog, List.pairwise_append]
    refine ⟨hJ, List.pairwise_singleton _ _, fun e he e' he' hpos hcut => ?_⟩
    obtain rfl := List.mem_singleton.mp he'
    exact hzero.mpr (hC (by rw [hframe]; rfl) ⟨e, he, hpos, hcut⟩)

/-- A write that is taken after a cut is not intact. -/
theorem Outgoing.not_intact {s : Outgoing} (hB : s.Logged) {w : CStr × V}
    (hC : ¬ s.RefusedAfterCut w) : ¬ (s.step w).Intact := by
  simp only [Outgoing.RefusedAfterCut, Classical.not_imp] at hC
  obtain ⟨hsome, ⟨e, he, hpos, hcut⟩, haccepts⟩ := hC
  obtain ⟨f, hframe⟩ := Option.isSome_iff_exists.mp hsome
  obtain ⟨_, hlog⟩ := hB.step_cases w
  rw [hframe] at hlog
  obtain ⟨n, hlog, hzero⟩ := hlog
  intro hintact
  have hquiet := hintact.nothingAfterCut
  rw [hlog, List.pairwise_append] at hquiet
  exact haccepts (hzero.mp (hquiet.2.2 e he (f, n) List.mem_cons_self hpos hcut))

/-! ## The session's own frames -/

/-- The frames of the handshake of a group. -/
def sessionFrames (g : TagGroup) : List (List UInt8) :=
  [frame mtRequestProtocolVersion (toBE 2 2),
    frame mtControlPackageSetupOutputs
      (hostToBe64 (sessionFrequency g.pollingInterval).toBits ++ toBytes (joinCsv (outputNames g)))] ++
  (if inputNames g = [] then []
    else [frame mtControlPackageSetupInputs (toBytes (joinCsv (inputNames g)))]) ++
  [frame mtControlPackageStart []]

variable {connect : CStr → Except String Socket} {g : TagGroup}

/-- A session that starts has sent its handshake, and nothing else. -/
theorem Handshake.received (hs : Handshake connect g) :
    hs.group.Open ∧ hs.group.received = hs.socket.sent ++ (sessionFrames g).flatten ∧
      ∀ f ∈ sessionFrames g, IsFrame f := by
  have hversion := negotiateVersion_true hs.version
  obtain ⟨⟨houtputs, hsize⟩, _, _⟩ := setup_ok hs.setupOutputs hs.outputs_ok
  obtain ⟨hstart, hsome⟩ := start_true hs.started
  obtain ⟨s, hs'⟩ := Option.isSome_iff_exists.mp hsome
  have hbase : (Client.opened hs.socket).sent = hs.socket.sent := rfl
  have hreceived : hs.group.received = hs.client.sent := rfl
  have hinputs : hs.configured.sent = hs.granted.sent ++
        (if inputNames g = [] then []
          else [frame mtControlPackageSetupInputs (toBytes (joinCsv (inputNames g)))]).flatten ∧
      (inputNames g ≠ [] → 3 + (toBytes (joinCsv (inputNames g))).length ≤ 0xFFFF) := by
    have hsetup := hs.setupInputs
    by_cases hin : inputNames g = []
    · rw [setupInputsIfAny, if_pos hin] at hsetup
      rw [if_pos hin, ← (Prod.mk.inj hsetup).2]
      exact ⟨(List.append_nil _).symm, fun h => absurd hin h⟩
    · rw [setupInputsIfAny, if_neg hin] at hsetup
      obtain ⟨⟨hsent, hfits⟩, _, _⟩ := setup_ok hsetup hs.inputs_ok
      rw [if_neg hin, hsent]
      exact ⟨by simp only [List.flatten_cons, List.flatten_nil, List.append_nil], fun _ => hfits⟩
  refine ⟨⟨hs.impl, hs.client, s, rfl, rfl, hs'⟩, ?_, fun f hf => ?_⟩
  · rw [hreceived, hstart, hinputs.1, houtputs, hversion, hbase]
    simp only [sessionFrames, List.flatten_append, List.flatten_cons, List.flatten_nil,
      List.append_nil, List.append_assoc]
  · rw [sessionFrames, List.mem_append, List.mem_append] at hf
    rcases hf with (hf | hf) | hf
    · simp only [List.mem_cons, List.not_mem_nil, or_false] at hf
      rcases hf with rfl | rfl
      · exact ⟨_, _, rfl, by decide⟩
      · exact ⟨_, _, rfl, hsize⟩
    · by_cases hin : inputNames g = []
      · rw [if_pos hin] at hf
        cases hf
      · rw [if_neg hin, List.mem_singleton] at hf
        exact ⟨_, _, hf, hinputs.2 hin⟩
    · rw [List.mem_singleton] at hf
      exact ⟨_, _, hf, by decide⟩

/-- A session just started, on the record of its handshake. -/
def Outgoing.start (g g' : TagGroup) : Outgoing :=
  { group := g', log := (sessionFrames g).map fun f => (f, f.length) }

/-- A session starts with whole frames. -/
theorem Handshake.start_logged (hs : Handshake connect g)
    (hfresh : ∀ s, connect g.gateway = .ok s → s.sent = []) :
    (Outgoing.start g hs.group).Logged ∧ (Outgoing.start g hs.group).Quiet := by
  obtain ⟨hopen, hreceived, hframes⟩ := hs.received
  rw [hfresh _ hs.connected, List.nil_append] at hreceived
  constructor
  · refine ⟨hopen, ?_, fun e he => ?_⟩
    · rw [Outgoing.start, hreceived, List.flatMap_map]
      simp only [List.take_length, List.flatMap_id']
    · obtain ⟨f, hf, rfl⟩ := List.mem_map.mp he
      exact ⟨hframes f hf, Nat.le_refl _⟩
  · rw [Outgoing.Quiet, Outgoing.start, List.pairwise_map]
    exact List.pairwise_of_forall fun f f' _ hcut => absurd hcut (Nat.lt_irrefl _)

/-- On a started session, the stream is whole frames and at most one piece at every moment exactly
when every write that follows an unfinished frame is refused its first byte. -/
theorem intact_iff_refused_after_cut {g' : TagGroup}
    (hinit : initRtdeSession connect g = (true, g'))
    (hfresh : ∀ s, connect g.gateway = .ok s → s.sent = []) (writes : List (CStr × V)) :
    Along Outgoing.step Outgoing.Intact (Outgoing.start g g') writes ↔
      Meets Outgoing.step Outgoing.RefusedAfterCut (Outgoing.start g g') writes := by
  obtain ⟨hs, rfl⟩ := initRtdeSession_eq_true hinit
  obtain ⟨hlogged, hquiet⟩ := hs.start_logged hfresh
  refine along_iff_meets Outgoing.step (B := Outgoing.Logged) (J := Outgoing.Quiet)
    (D := fun _ _ => True) (fun s w hB _ => (hB.step_cases w).1)
    (fun s w hB hJ _ hC => hJ.step hB hC) (fun s hB hJ => hJ.intact hB)
    (fun s w hB _ _ hC => s.not_intact hB hC) hlogged hquiet ?_
  exact (meets_iff_split _ _ _ _).mpr fun _ _ _ _ => trivial

/-- Two bytes of the first package are taken, then would-block, then the whole second package. -/
theorem short_write_not_intact :
    let start := initRtdeSession
      (fun _ => .ok (cellSocket [.accepted 2, .failed eWouldBlock, .accepted 100])) cellGroup
    start.1 = true ∧ ¬ Along Outgoing.step Outgoing.Intact (Outgoing.start cellGroup start.2)
      [("input_bit_register_64".toList, true), ("input_bit_register_64".toList, false)] := by
  intro start
  have htrue : start.1 = true := by decide
  obtain ⟨hs, hgroup⟩ := initRtdeSession_eq_true
    (show _ = (true, start.2) from Prod.ext htrue rfl)
  have hlogged : (Outgoing.start cellGroup start.2).Logged := by
    rw [hgroup]
    refine (hs.start_logged fun s h => ?_).1
    rw [← Except.ok.inj h]
    rfl
  refine ⟨htrue, fun halong => ?_⟩
  refine Outgoing.not_intact (hlogged.step_cases _).1 ?_ halong.last
  intro hrefused
  exact absurd (hrefused (by decide) (by decide)) (by decide)

/-- The same cut where the socket stays full. -/
theorem full_socket_intact :
    let start := initRtdeSession
      (fun _ => .ok (cellSocket [.accepted 2, .failed eWouldBlock, .failed eWouldBlock])) cellGroup
    Along Outgoing.step Outgoing.Intact (Outgoing.start cellGroup start.2)
        [("input_bit_register_64".toList, true), ("input_bit_register_64".toList, false)] ↔
      Meets Outgoing.step Outgoing.RefusedAfterCut (Outgoing.start cellGroup start.2)
        [("input_bit_register_64".toList, true), ("input_bit_register_64".toList, false)] := by
  intro start
  have htrue : start.1 = true := by decide
  refine intact_iff_refused_after_cut (show _ = (true, start.2) from Prod.ext htrue rfl)
    (fun s h => ?_) _
  rw [← Except.ok.inj h]
  rfl

end OipComms.Rtde
