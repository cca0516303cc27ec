import OipComms.Lib.Framing
import OipComms.Rtde.Field

/-!
# The RTDE client

The class `Client` of `rtde_client.cpp`. What the kernel and the controller do is the socket's: it
holds the answers `send()` and `recv()` are going to give, in order, and everything `send()` has
accepted. A list of answers that has run out answers would-block from then on, so a finite list is
every behaviour a finite run can meet.

Every method that may fail returns its flag and the client it leaves, with `last_error_` set to the
text of the source.
-/

namespace OipComms.Rtde

open BigEndian Framing

/-- What one `send()` answers: how many of the offered bytes it took, or its `errno`. -/
inductive SendAnswer
  | accepted (n : Nat)
  | failed (errno : Nat)
  deriving DecidableEq, Repr

/-- What one `recv()` answers: a chunk, empty when the peer has closed, or its `errno`. -/
inductive RecvAnswer
  | bytes (chunk : List UInt8)
  | failed (errno : Nat)
  deriving DecidableEq, Repr

/-- `EWOULDBLOCK`, the value of `EAGAIN`. -/
def eWouldBlock : Nat := 11

/-- A socket: the answers to come, whether its mode can be switched, the last `errno`, and the bytes
it has accepted. -/
structure Socket where
  sends : List SendAnswer := []
  recvs : List RecvAnswer := []
  modeSwitch : Bool := true
  errno : Nat := 0
  sent : List UInt8 := []
  deriving DecidableEq, Repr

/-- `Client`; `socket` is `none` where `socket_` is -1. -/
structure Client where
  socket : Option Socket := none
  lastError : String := ""
  recvBuf : List UInt8 := []
  deriving DecidableEq, Repr

/-- `is_open`. -/
def Client.isOpen (c : Client) : Bool := c.socket.isSome

/-- `store_socket_error`. -/
def socketError (text : String) (errno : Nat) : String :=
  text ++ " (errno " ++ toString errno ++ ")"

/-- `close`. -/
def Client.close (c : Client) : Client := { c with socket := none, recvBuf := [] }

/-- `open`, with what connecting to the host came to. -/
def Client.open (answer : Except String Socket) (c : Client) : Bool × Client :=
  match answer with
  | .error text => (false, { c.close with lastError := text })
  | .ok socket => (true, { c.close with lastError := "", socket := some socket })

/-! ## Sending -/

/-- The types of the frames. -/
def mtRequestProtocolVersion : UInt8 := 86
def mtDataPackage : UInt8 := 85
def mtControlPackageSetupOutputs : UInt8 := 79
def mtControlPackageSetupInputs : UInt8 := 73
def mtControlPackageStart : UInt8 := 83

/-- A frame as `send_frame` lays it out. -/
def frame (type : UInt8) (payload : List UInt8) : List UInt8 :=
  toBE 2 (3 + payload.length) ++ type :: payload

/-- The loop of `send_frame` on the bytes still to send: whether they were all accepted, the bytes
that were, and what is left of the answers. -/
def sendLoop (errno : Nat) :
    List SendAnswer → List UInt8 → Bool × List UInt8 × Nat × List SendAnswer
  | answers, [] => (true, [], errno, answers)
  | [], _ :: _ => (false, [], eWouldBlock, [])
  | .failed e :: answers, _ :: _ => (false, [], e, answers)
  | .accepted n :: answers, b :: rest =>
    if n = 0 then (false, [], errno, answers)
    else
      let (done, accepted, errno, answers) := sendLoop errno answers ((b :: rest).drop n)
      (done, (b :: rest).take n ++ accepted, errno, answers)

/-- `send_frame`. -/
def Client.sendFrame (type : UInt8) (payload : List UInt8) (c : Client) : Bool × Client :=
  match c.socket with
  | none => (false, c)
  | some s =>
    if 0xFFFF < 3 + payload.length then (false, { c with lastError := "RTDE frame too large" })
    else
      let (done, accepted, errno, sends) := sendLoop s.errno s.sends (frame type payload)
      let c := { c with socket := some { s with
        sends := sends, errno := errno, sent := s.sent ++ accepted } }
      if done then (true, c)
      else (false, { c with lastError := socketError "RTDE send() failed" errno })

/-- `send_input`. -/
def Client.sendInput (recipeId : UInt8) (payload : List UInt8) (c : Client) : Bool × Client :=
  c.sendFrame mtDataPackage (recipeId :: payload)

/-! ## Receiving -/

/-- `parse_buffered_frame`, on the buffer: 0, -1, or 1 with the frame and the bytes behind it. -/
def parseFrame : List UInt8 → Parsed (UInt8 × List UInt8) UInt8
  | hi :: lo :: type :: body =>
    let size := hi.toNat * 256 + lo.toNat
    if size < 3 then .malformed
    else if body.length + 3 < size then .incomplete
    else .frame (type, body.take (size - 3)) (body.drop (size - 3))
  | _ => .incomplete

/-- What a method that extracts a frame returns: -1, 0, or 1 with the frame. -/
inductive Extracted
  | error
  | nothing
  | frame (type : UInt8) (payload : List UInt8)
  deriving DecidableEq, Repr

/-- `parse_buffered_frame`. -/
def Client.parseBufferedFrame (c : Client) : Extracted × Client :=
  match parseFrame c.recvBuf with
  | .incomplete => (.nothing, c)
  | .malformed => (.error, { c with lastError := "RTDE: malformed frame size" })
  | .frame (type, payload) rest => (.frame type payload, { c with recvBuf := rest })

/-- The loop of `try_extract_frame`: chunks until `recv()` fails, with the `errno` it failed with,
`none` when the peer has closed. -/
def drainLoop : List RecvAnswer → List UInt8 → Option Nat × List UInt8 × List RecvAnswer
  | [], buf => (some eWouldBlock, buf, [])
  | .failed e :: answers, buf => (some e, buf, answers)
  | .bytes [] :: answers, buf => (none, buf, answers)
  | .bytes (b :: chunk) :: answers, buf => drainLoop answers (buf ++ b :: chunk)

/-- `try_extract_frame`. -/
def Client.tryExtractFrame (c : Client) : Extracted × Client :=
  match c.socket with
  | none => (.error, c)
  | some s =>
    match drainLoop s.recvs c.recvBuf with
    | (none, buf, recvs) =>
      (.error, { c with
        socket := some { s with recvs := recvs }, recvBuf := buf,
        lastError := "RTDE: peer closed connection" })
    | (some e, buf, recvs) =>
      let c := { c with socket := some { s with recvs := recvs, errno := e }, recvBuf := buf }
      if e = eWouldBlock then c.parseBufferedFrame
      else (.error, { c with lastError := socketError "RTDE recv() failed" e })

/-- The loop of `recv_frame`: one chunk at a time until a frame is there. `none` is a `recv()` that
failed or timed out, with the `errno` it left. -/
def recvLoop (errno : Nat) :
    List RecvAnswer → List UInt8 →
      Parsed (UInt8 × List UInt8) UInt8 × Option Nat × List UInt8 × List RecvAnswer
  | answers, buf =>
    match parseFrame buf with
    | .frame f rest => (.frame f rest, none, rest, answers)
    | .malformed => (.malformed, none, buf, answers)
    | .incomplete =>
      match answers with
      | [] => (.incomplete, some eWouldBlock, buf, [])
      | .failed e :: answers => (.incomplete, some e, buf, answers)
      | .bytes [] :: answers => (.incomplete, some errno, buf, answers)
      | .bytes (b :: chunk) :: answers => recvLoop errno answers (buf ++ b :: chunk)

/-- `recv_frame`; `none` where it returns false. -/
def Client.recvFrame (c : Client) : Option (UInt8 × List UInt8) × Client :=
  match c.socket with
  | none => (none, c)
  | some s =>
    if !s.modeSwitch then (none, { c with lastError := socketError "RTDE fcntl(F_SETFL) failed" s.errno })
    else
      match recvLoop s.errno s.recvs c.recvBuf with
      | (.frame f _, _, buf, recvs) =>
        (some f, { c with socket := some { s with recvs := recvs }, recvBuf := buf })
      | (.malformed, _, buf, recvs) =>
        (none, { c with socket := some { s with recvs := recvs }, recvBuf := buf,
                        lastError := "RTDE: malformed frame size" })
      | (.incomplete, e, buf, recvs) =>
        let errno := e.getD s.errno
        (none, { c with socket := some { s with recvs := recvs, errno := errno }, recvBuf := buf,
                        lastError := socketError "RTDE recv() failed during handshake" errno })

/-- The bytes that answers are going to bring. -/
def recvBytes (answers : List RecvAnswer) : List UInt8 :=
  answers.flatMap fun
    | .bytes chunk => chunk
    | .failed _ => []

/-- The loop of `poll`, with the latest package so far. Each round takes a frame of at least three
bytes, so there are fewer rounds than bytes. -/
def pollLoop : Nat → Option (UInt8 × List UInt8) → Client → Extracted × Client
  | 0, _, c => (.nothing, c)
  | fuel + 1, latest, c =>
    match c.tryExtractFrame with
    | (.error, c) => (.error, c.close)
    | (.nothing, c) =>
      match latest with
      | some (recipeId, payload) => (.frame recipeId payload, c)
      | none => (.nothing, c)
    | (.frame type payload, c) =>
      match payload with
      | recipeId :: body =>
        pollLoop fuel (if type = mtDataPackage then some (recipeId, body) else latest) c
      | [] => pollLoop fuel latest c

/-- `poll`: -1, 0, or 1 with the recipe id and the body of the latest package. -/
def Client.poll (c : Client) : Extracted × Client :=
  match c.socket with
  | none => (.error, c)
  | some s => pollLoop (c.recvBuf.length + (recvBytes s.recvs).length + 1) none c

/-! ## The handshake -/

/-- `negotiate_version`. -/
def Client.negotiateVersion (c : Client) : Bool × Client :=
  match c.sendFrame mtRequestProtocolVersion (toBE 2 2) with
  | (false, c) => (false, c)
  | (true, c) =>
    match c.recvFrame with
    | (none, c) => (false, c)
    | (some (type, reply), c) =>
      if type ≠ mtRequestProtocolVersion ∨ reply = [] then
        (false, { c with lastError := "RTDE: unexpected reply to protocol version request" })
      else if reply.head? ≠ some 1 then
        (false, { c with lastError := "RTDE: controller rejected protocol version 2" })
      else (true, c)

/-- The bytes of a string. -/
def toBytes (s : CStr) : List UInt8 := s.map fun ch => UInt8.ofNat ch.toNat

/-- A string of bytes received. -/
def ofBytes (bytes : List UInt8) : CStr := bytes.map fun b => Char.ofNat b.toNat

/-- `join_csv`. -/
def joinCsv (names : List CStr) : CStr := List.intercalate [','] names

/-- `split_csv`. -/
def splitCsv : CStr → List CStr
  | [] => [[]]
  | ch :: s =>
    if ch = ',' then [] :: splitCsv s
    else
      match splitCsv s with
      | field :: fields => (ch :: field) :: fields
      | [] => [[ch]]

/-- One of the three lists of names a setup reports, as the loop builds it. -/
def bucketOf (ft : FieldType) (entry : CStr → CStr → CStr) (replies : List (CStr × CStr)) : CStr :=
  replies.foldl (fun bucket p =>
    if parseFieldType p.2 = ft then
      (if bucket = [] then bucket else bucket ++ [',', ' ']) ++ entry p.1 p.2
    else bucket) []

/-- What a recipe setup leaves: its flag, and the two values it assigns on the way. -/
structure SetupReply where
  ok : Bool
  recipeId : Option UInt8 := none
  types : List FieldType := []
  deriving DecidableEq, Repr

/-- The texts in which the two setups differ. -/
structure SetupTexts where
  word : String
  inUse : String

/-- What the two setups share: the request is sent, and the reply is one type for each name. -/
def Client.setup (texts : SetupTexts) (mt : UInt8) (request : List UInt8) (names : List CStr)
    (c : Client) : SetupReply × Client :=
  match c.sendFrame mt request with
  | (false, c) => ({ ok := false }, c)
  | (true, c) =>
    match c.recvFrame with
    | (none, c) => ({ ok := false }, c)
    | (some (type, reply), c) =>
      match reply with
      | [] => ({ ok := false },
          { c with lastError := "RTDE: unexpected reply to setup " ++ texts.word ++ "s" })
      | recipeId :: body =>
        if type ≠ mt then
          ({ ok := false },
            { c with lastError := "RTDE: unexpected reply to setup " ++ texts.word ++ "s" })
        else
          let typeStrs := splitCsv (ofBytes body)
          if typeStrs.length ≠ names.length then
            ({ ok := false, recipeId := some recipeId },
              { c with lastError := "RTDE: setup " ++ texts.word ++ "s returned " ++
                  toString typeStrs.length ++ " types for " ++ toString names.length ++ " names" })
          else
            let replies := names.zip typeStrs
            let notFoundList := bucketOf .notFound (fun name _ => name) replies
            let inUseList := bucketOf .inUse (fun name _ => name) replies
            let unknownList := bucketOf .unknown
              (fun name type => name ++ " (got '".toList ++ type ++ "')".toList) replies
            let answer : SetupReply :=
              { ok := true, recipeId := some recipeId, types := typeStrs.map parseFieldType }
            if notFoundList ≠ [] then
              ({ answer with ok := false },
                { c with lastError := "RTDE: unknown " ++ texts.word ++ " variable(s): " ++
                    String.ofList notFoundList })
            else if inUseList ≠ [] then
              ({ answer with ok := false },
                { c with lastError := texts.inUse ++ String.ofList inUseList })
            else if unknownList ≠ [] then
              ({ answer with ok := false },
                { c with lastError := "RTDE: unrecognized " ++ texts.word ++
                    " type from controller: " ++ String.ofList unknownList })
            else (answer, c)

/-- `setup_outputs`, with the bits of the frequency it asks for. -/
def Client.setupOutputs (frequency : UInt64) (names : List CStr) (c : Client) :
    SetupReply × Client :=
  c.setup ⟨"output", "RTDE: output variable(s) already in use by another client: "⟩
    mtControlPackageSetupOutputs (hostToBe64 frequency ++ toBytes (joinCsv names)) names

/-- `setup_inputs`. -/
def Client.setupInputs (names : List CStr) (c : Client) : SetupReply × Client :=
  c.setup ⟨"input", "RTDE: input variable(s) already in use (typically by the controller's " ++
    "Fieldbus/PLC interface; try input_bit_register_64..127, input_int_register_24..47, or " ++
    "input_double_register_24..47 which are reserved for external RTDE clients): "⟩
    mtControlPackageSetupInputs (toBytes (joinCsv names)) names

/-- `start`. -/
def Client.start (c : Client) : Bool × Client :=
  match c.sendFrame mtControlPackageStart [] with
  | (false, c) => (false, c)
  | (true, c) =>
    match c.recvFrame with
    | (none, c) => (false, c)
    | (some (type, reply), c) =>
      if type ≠ mtControlPackageStart ∨ reply.head? ≠ some 1 then
        (false, { c with lastError := "RTDE: controller rejected start" })
      else
        match c.socket with
        | none => (false, c)
        | some s =>
          if s.modeSwitch then (true, c)
          else (false, { c with lastError := socketError "RTDE fcntl(F_SETFL) failed" s.errno })

end OipComms.Rtde
