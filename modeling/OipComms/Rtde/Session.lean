import OipComms.Rtde.Placement

/-!
# A session that starts

What a true answer of `init_rtde_session` says: each message of the handshake was sent whole and
answered, both recipes were granted, and every tag found its place. `Handshake` collects it, and
`initRtdeSession_eq_true` is the one lemma that opens the definition; the layout of the payloads
and the bytes on the wire are read off the structure.
-/

namespace OipComms.Rtde

open BigEndian Framing

/-! ## Sending a frame -/

/-- The socket takes no byte of the next frame. -/
def refuses : List SendAnswer → Bool
  | [] => true
  | .failed _ :: _ => true
  | .accepted n :: _ => n = 0

/-- The loop sends the bytes from the front: all of them when it says so. -/
theorem sendLoop_accepted (errno : Nat) (answers : List SendAnswer) (bytes : List UInt8) :
    (sendLoop errno answers bytes).2.1 <+: bytes ∧
    ((sendLoop errno answers bytes).1 = true → (sendLoop errno answers bytes).2.1 = bytes) := by
  induction answers generalizing bytes with
  | nil =>
    cases bytes with
    | nil => exact ⟨List.nil_prefix, fun _ => rfl⟩
    | cons b rest => exact ⟨List.nil_prefix, fun h => nomatch h⟩
  | cons a answers ih =>
    cases bytes with
    | nil => cases a <;> exact ⟨List.nil_prefix, fun _ => rfl⟩
    | cons b rest =>
      cases a with
      | failed e => exact ⟨List.nil_prefix, fun h => nomatch h⟩
      | accepted n =>
        by_cases hn : n = 0
        · simp only [sendLoop, hn, if_true]
          exact ⟨List.nil_prefix, fun h => nomatch h⟩
        · obtain ⟨hfront, hall⟩ := ih ((b :: rest).drop n)
          simp only [sendLoop, hn, if_false]
          constructor
          · obtain ⟨missing, hmissing⟩ := hfront
            refine ⟨missing, ?_⟩
            rw [List.append_assoc, hmissing, List.take_append_drop]
          · intro hdone
            rw [hall hdone, List.take_append_drop]

/-- Nothing is taken exactly when the first answer refuses. -/
theorem sendLoop_nil_iff (errno : Nat) (answers : List SendAnswer) {bytes : List UInt8}
    (hne : bytes ≠ []) : (sendLoop errno answers bytes).2.1 = [] ↔ refuses answers = true := by
  obtain ⟨b, rest, rfl⟩ := List.exists_cons_of_ne_nil hne
  cases answers with
  | nil => exact iff_of_true rfl rfl
  | cons a answers =>
    cases a with
    | failed e => exact iff_of_true rfl rfl
    | accepted n =>
      cases n with
      | zero => exact iff_of_true rfl rfl
      | succ n =>
        refine iff_of_false ?_ Bool.false_ne_true
        intro h
        simp only [sendLoop, Nat.succ_ne_zero, if_false, List.take_succ_cons, List.cons_append] at h
        cases h

/-- What has been accepted on a client's socket. -/
def Client.sent (c : Client) : List UInt8 := (c.socket.map Socket.sent).getD []

/-- A frame that was sent was sent whole. -/
theorem sendFrame_true {type : UInt8} {payload : List UInt8} {c c' : Client}
    (h : c.sendFrame type payload = (true, c')) :
    c'.sent = c.sent ++ frame type payload ∧ 3 + payload.length ≤ 0xFFFF ∧
      c'.socket.isSome = true ∧ c'.recvBuf = c.recvBuf := by
  unfold Client.sendFrame at h
  cases hsocket : c.socket with
  | none =>
    rw [hsocket] at h
    cases h
  | some s =>
    rw [hsocket] at h
    simp only at h
    by_cases hlarge : 0xFFFF < 3 + payload.length
    · rw [if_pos hlarge] at h
      cases h
    · rw [if_neg hlarge] at h
      obtain ⟨_, hall⟩ := sendLoop_accepted s.errno s.sends (frame type payload)
      rcases hloop : sendLoop s.errno s.sends (frame type payload) with ⟨done, accepted, e, sends⟩
      rw [hloop] at h hall
      cases done with
      | false => cases h
      | true =>
        obtain ⟨-, rfl⟩ := Prod.mk.inj h
        refine ⟨?_, Nat.not_lt.mp hlarge, rfl, rfl⟩
        have hwhole : accepted = frame type payload := hall rfl
        simp only [Client.sent, hsocket, Option.map_some, Option.getD_some, hwhole]

/-- A failed send does not close the connection. -/
theorem sendFrame_socket (type : UInt8) (payload : List UInt8) (c : Client) :
    (c.sendFrame type payload).2.socket.isSome = c.socket.isSome := by
  unfold Client.sendFrame
  cases hsocket : c.socket with
  | none => simp only [hsocket]
  | some s =>
    simp only
    by_cases hlarge : 0xFFFF < 3 + payload.length
    · simp only [if_pos hlarge]
    · rcases sendLoop s.errno s.sends (frame type payload) with ⟨_ | _, accepted, e, sends⟩
      all_goals simp only [if_neg hlarge]
      all_goals rfl

/-- Receiving sends nothing. -/
theorem recvFrame_sent {c c' : Client} {r : Option (UInt8 × List UInt8)}
    (h : c.recvFrame = (r, c')) : c'.sent = c.sent ∧ c'.socket.isSome = c.socket.isSome := by
  unfold Client.recvFrame at h
  cases hsocket : c.socket with
  | none =>
    rw [hsocket] at h
    obtain ⟨-, rfl⟩ := Prod.mk.inj h
    exact ⟨rfl, by rw [hsocket]⟩
  | some s =>
    rw [hsocket] at h
    simp only at h
    by_cases hmode : (!s.modeSwitch) = true
    · rw [if_pos hmode] at h
      obtain ⟨-, rfl⟩ := Prod.mk.inj h
      exact ⟨by simp only [Client.sent, hsocket], rfl⟩
    · rw [if_neg hmode] at h
      rcases hloop : recvLoop s.errno s.recvs c.recvBuf with ⟨parsed, e, buf, recvs⟩
      rw [hloop] at h
      cases parsed <;>
      · obtain ⟨-, rfl⟩ := Prod.mk.inj h
        exact ⟨by simp only [Client.sent, hsocket, Option.map_some, Option.getD_some], rfl⟩

/-- A version that is agreed was asked for in one frame. -/
theorem negotiateVersion_true {c c' : Client} (h : c.negotiateVersion = (true, c')) :
    c'.sent = c.sent ++ frame mtRequestProtocolVersion (toBE 2 2) := by
  unfold Client.negotiateVersion at h
  rcases hsend : c.sendFrame mtRequestProtocolVersion (toBE 2 2) with ⟨sent, c₁⟩
  rw [hsend] at h
  cases sent with
  | false => cases h
  | true =>
    rcases hrecv : c₁.recvFrame with ⟨reply, c₂⟩
    simp only [hrecv] at h
    cases reply with
    | none => cases h
    | some reply =>
      simp only at h
      split at h
      · cases h
      · split at h
        · cases h
        · obtain ⟨-, rfl⟩ := Prod.mk.inj h
          rw [(recvFrame_sent hrecv).1, (sendFrame_true hsend).1]

/-- A start that succeeds was asked for in one frame, and leaves the socket. -/
theorem start_true {c c' : Client} (h : c.start = (true, c')) :
    c'.sent = c.sent ++ frame mtControlPackageStart [] ∧ c'.socket.isSome = true := by
  unfold Client.start at h
  rcases hsend : c.sendFrame mtControlPackageStart [] with ⟨sent, c₁⟩
  rw [hsend] at h
  cases sent with
  | false => cases h
  | true =>
    rcases hrecv : c₁.recvFrame with ⟨reply, c₂⟩
    simp only [hrecv] at h
    cases reply with
    | none => cases h
    | some reply =>
      simp only at h
      split at h
      · cases h
      · cases hsocket : c₂.socket with
        | none =>
          rw [hsocket] at h
          cases h
        | some s =>
          rw [hsocket] at h
          simp only at h
          by_cases hmode : s.modeSwitch = true
          · rw [if_pos hmode] at h
            obtain ⟨-, rfl⟩ := Prod.mk.inj h
            exact ⟨by rw [(recvFrame_sent hrecv).1, (sendFrame_true hsend).1], by rw [hsocket]; rfl⟩
          · rw [if_neg hmode] at h
            cases h

/-- A list of refused names is empty only if nothing was put in it. -/
theorem bucketOf_eq_nil {ft : FieldType} {entry : CStr → CStr → CStr}
    {replies : List (CStr × CStr)} (h : bucketOf ft entry replies = []) :
    ∀ p ∈ replies, parseFieldType p.2 = ft → entry p.1 p.2 = [] := by
  have hfold : ∀ (replies : List (CStr × CStr)) (bucket : CStr),
      replies.foldl (fun bucket p =>
        if parseFieldType p.2 = ft then
          (if bucket = [] then bucket else bucket ++ [',', ' ']) ++ entry p.1 p.2
        else bucket) bucket = [] →
      bucket = [] ∧ ∀ p ∈ replies, parseFieldType p.2 = ft → entry p.1 p.2 = [] := by
    intro replies
    induction replies with
    | nil => exact fun bucket h => ⟨h, fun p hp => (List.not_mem_nil hp).elim⟩
    | cons p replies ih =>
      intro bucket h
      obtain ⟨hbucket, hrest⟩ := ih _ h
      beta_reduce at hbucket
      by_cases hft : parseFieldType p.2 = ft
      · rw [if_pos hft] at hbucket
        obtain ⟨hold, hentry⟩ := List.append_eq_nil_iff.mp hbucket
        have hnil : bucket = [] := by
          by_contra hne
          rw [if_neg hne] at hold
          exact hne (List.append_eq_nil_iff.mp hold).1
        refine ⟨hnil, fun q hq hqft => ?_⟩
        rcases List.mem_cons.mp hq with rfl | hq
        · exact hentry
        · exact hrest q hq hqft
      · rw [if_neg hft] at hbucket
        refine ⟨hbucket, fun q hq hqft => ?_⟩
        rcases List.mem_cons.mp hq with rfl | hq
        · exact absurd hqft hft
        · exact hrest q hq hqft
  exact (hfold replies [] h).2

/-- A granted recipe: the request was sent whole, and every name has a type a package can carry,
the empty name excepted, which no list of refusals shows. -/
theorem setup_ok {texts : SetupTexts} {mt : UInt8} {request : List UInt8} {names : List CStr}
    {c c' : Client} {answer : SetupReply} (h : c.setup texts mt request names = (answer, c'))
    (hok : answer.ok = true) :
    (c'.sent = c.sent ++ frame mt request ∧ 3 + request.length ≤ 0xFFFF) ∧
      answer.types.length = names.length ∧
      (∀ p ∈ names.zip answer.types, p.1 ≠ [] → p.2.Concrete) ∧
      answer.recipeId.isSome = true := by
  unfold Client.setup at h
  rcases hsend : c.sendFrame mt request with ⟨sent, c₁⟩
  rw [hsend] at h
  cases sent with
  | false =>
    obtain ⟨rfl, rfl⟩ := Prod.mk.inj h
    cases hok
  | true =>
    rcases hrecv : c₁.recvFrame with ⟨reply, c₂⟩
    simp only [hrecv] at h
    have hsent : c₂.sent = c.sent ++ frame mt request ∧ 3 + request.length ≤ 0xFFFF := by
      obtain ⟨hsent, hsize, _, _⟩ := sendFrame_true hsend
      rw [(recvFrame_sent hrecv).1, hsent]
      exact ⟨rfl, hsize⟩
    rcases reply with _ | ⟨type, _ | ⟨recipeId, body⟩⟩
    · obtain ⟨rfl, rfl⟩ := Prod.mk.inj h
      cases hok
    · obtain ⟨rfl, rfl⟩ := Prod.mk.inj h
      cases hok
    · simp only at h
      split at h
      · obtain ⟨rfl, rfl⟩ := Prod.mk.inj h
        cases hok
      split at h
      · obtain ⟨rfl, rfl⟩ := Prod.mk.inj h
        cases hok
      rename_i hlen
      split at h
      · obtain ⟨rfl, rfl⟩ := Prod.mk.inj h
        cases hok
      rename_i hnotFound
      split at h
      · obtain ⟨rfl, rfl⟩ := Prod.mk.inj h
        cases hok
      rename_i hinUse
      split at h
      · obtain ⟨rfl, rfl⟩ := Prod.mk.inj h
        cases hok
      rename_i hunknown
      obtain ⟨rfl, rfl⟩ := Prod.mk.inj h
      refine ⟨hsent, ?_, ?_, rfl⟩
      · rw [List.length_map]
        exact not_not.mp hlen
      · intro p hp hname
        rw [List.zip_map_right] at hp
        obtain ⟨q, hq, rfl⟩ := List.mem_map.mp hp
        refine ⟨fun hft => ?_, fun hft => ?_, fun hft => ?_⟩
        · have hentry := bucketOf_eq_nil (not_not.mp hunknown) q hq hft
          exact absurd (List.append_eq_nil_iff.mp hentry).2 (by decide)
        · exact hname (bucketOf_eq_nil (not_not.mp hnotFound) q hq hft)
        · exact hname (bucketOf_eq_nil (not_not.mp hinUse) q hq hft)

/-! ## The handshake as a whole -/

/-- The client `open` leaves on a fresh connection. -/
def Client.opened (s : Socket) : Client := { socket := some s }

/-- A handshake that went through: the socket it was given, the two answers, what the tags were
resolved to, and the client it left. -/
structure Handshake (connect : CStr → Except String Socket) (g : TagGroup) where
  socket : Socket
  versioned : Client
  granted : Client
  configured : Client
  client : Client
  outputs : SetupReply
  inputs : SetupReply
  tags : List (CStr × RtdeTagEntry)
  outputNames_ne : outputNames g ≠ []
  connected : connect g.gateway = .ok socket
  version : (Client.opened socket).negotiateVersion = (true, versioned)
  setupOutputs : versioned.setupOutputs (sessionFrequency g.pollingInterval).toBits
    (outputNames g) = (outputs, granted)
  outputs_ok : outputs.ok = true
  setupInputs : setupInputsIfAny (inputNames g) granted = (inputs, configured)
  inputs_ok : inputs.ok = true
  resolved : resolveAll (offsetTable 0 (inputNames g) inputs.types)
    (offsetTable 0 (outputNames g) outputs.types) (sessionTags g) = (true, tags)
  started : configured.start = (true, client)

variable {connect : CStr → Except String Socket} {g : TagGroup}

/-- What a handshake makes of the group's data. -/
def Handshake.impl (hs : Handshake connect g) : RtdeTagGroupImpl where
  client := some hs.client
  tags := markInitialized (Std.ExtTreeMap.ofList hs.tags)
  started := true
  outputRecipeId := hs.outputs.recipeId.getD (g.rtdeImpl.getD {}).outputRecipeId
  outputPayload := List.replicate (payloadSize hs.outputs.types) 0
  haveOutputData := false
  inputRecipeSetup := decide (inputNames g ≠ [])
  inputRecipeId := hs.inputs.recipeId.getD (g.rtdeImpl.getD {}).inputRecipeId
  inputPayload := List.replicate (payloadSize hs.inputs.types) 0

def Handshake.group (hs : Handshake connect g) : TagGroup :=
  { g with
    rtdeImpl := some hs.impl
    initCount := g.initCount + hs.impl.tags.size }

/-- `init_rtde_session` answers true only at the end of a handshake. -/
theorem initRtdeSession_eq_true {g' : TagGroup} (h : initRtdeSession connect g = (true, g')) :
    ∃ hs : Handshake connect g, g' = hs.group := by
  unfold initRtdeSession at h
  by_cases hnames : outputNames g = []
  · simp only [hnames, if_true] at h
    cases h
  cases hconnect : connect g.gateway with
  | error text =>
    simp only [hnames, if_false, hconnect, Client.open] at h
    cases h
  | ok socket =>
  rcases hversion : (Client.opened socket).negotiateVersion with ⟨_ | _, versioned⟩
  · simp only [hnames, if_false, hconnect, Client.open, Client.close, ← Client.opened.eq_1, hversion] at h
    cases h
  rcases houtputs : versioned.setupOutputs (sessionFrequency g.pollingInterval).toBits
    (outputNames g) with ⟨outputs, granted⟩
  simp only [hnames, if_false, hconnect, Client.open, Client.close, ← Client.opened.eq_1,
    hversion, houtputs] at h
  by_cases houtok : outputs.ok = true
  case neg =>
    rw [Bool.not_eq_true] at houtok
    simp only [houtok, Bool.not_false, if_true] at h
    cases h
  rcases hinputs : setupInputsIfAny (inputNames g) granted with ⟨inputs, configured⟩
  simp only [houtok, Bool.not_true, Bool.false_eq_true, if_false, hinputs] at h
  by_cases hinok : inputs.ok = true
  case neg =>
    rw [Bool.not_eq_true] at hinok
    simp only [hinok, Bool.not_false, if_true] at h
    cases h
  rcases hresolved : resolveAll (offsetTable 0 (inputNames g) inputs.types)
    (offsetTable 0 (outputNames g) outputs.types) (sessionTags g) with ⟨_ | _, tags⟩
  · simp only [hinok, Bool.not_true, Bool.false_eq_true, if_false, hresolved, Bool.not_false,
      if_true] at h
    cases h
  rcases hstart : configured.start with ⟨_ | _, client⟩
  · simp only [hinok, Bool.not_true, Bool.false_eq_true, if_false, hresolved, hstart] at h
    cases h
  simp only [hinok, Bool.not_true, Bool.false_eq_true, if_false, hresolved, hstart, Prod.mk.injEq,
    true_and] at h
  refine ⟨⟨socket, versioned, granted, configured, client, outputs, inputs, tags, hnames, hconnect,
    hversion, houtputs, houtok, hinputs, hinok, hresolved, hstart⟩, ?_⟩
  subst h
  by_cases hin : inputNames g = []
  · have hnone : inputs = { ok := true } := by
      rw [setupInputsIfAny, if_pos hin] at hinputs
      exact (Prod.mk.inj hinputs).1.symm
    simp only [Handshake.group, Handshake.impl, hin, hnone, if_true, ne_eq, not_true, decide_false]
    rfl
  · simp only [Handshake.group, Handshake.impl, hin, if_false, ne_eq, not_false_iff, decide_true]

/-! ## The tags of a session -/

/-- A group with the given names registered on it, in order. -/
def registered (pollingInterval : Int) (gateway : CStr) (names : List CStr) : TagGroup :=
  names.foldl (fun g name => (registerTag name g).2)
    { pollingInterval := pollingInterval, gateway := gateway }

/-- An entry as `register_tag` makes it from its name. -/
structure FromName (name : CStr) (e : RtdeTagEntry) : Prop where
  parse : parseTagIndex name = some (e.baseName, e.elementIndex, e.hasBrackets)
  isInput : e.isInput = rtdeIsInputName e.baseName

/-- A group whose tags were registered and never resolved. -/
structure TagGroup.Fresh (g : TagGroup) : Prop where
  hasError : g.hasError = false
  tags : ∀ name e, (g.rtdeImpl.getD {}).tags[name]? = some e →
    FromName name e ∧ e.isBitIndexed = false

/-- A tag that is registered leaves the group without a session. -/
theorem TagGroup.Fresh.registerTag {g : TagGroup} (h : g.Fresh) (name : CStr) :
    (registerTag name g).2.Fresh := by
  unfold Rtde.registerTag
  by_cases hname : name = []
  · rw [if_pos hname]
    exact h
  rw [if_neg hname]
  cases g.rtdeImpl.bind fun impl => impl.tags[name]? with
  | some e => exact h
  | none =>
    cases hparse : parseTagIndex name with
    | none => exact ⟨h.hasError, h.tags⟩
    | some parsed =>
      obtain ⟨base, idx, brackets⟩ := parsed
      refine ⟨h.hasError, fun n e he => ?_⟩
      rw [Option.getD_some, Std.ExtTreeMap.getElem?_insert] at he
      by_cases hn : compare name n = .eq
      · rw [if_pos hn] at he
        obtain rfl := Std.LawfulEqCmp.eq_of_compare hn
        obtain rfl := Option.some.inj he
        exact ⟨⟨hparse, rfl⟩, rfl⟩
      · rw [if_neg hn] at he
        exact h.tags n e he

/-- A group as its tags are registered has no session. -/
theorem registered_fresh (pollingInterval : Int) (gateway : CStr) (names : List CStr) :
    (registered pollingInterval gateway names).Fresh := by
  have hfold : ∀ (names : List CStr) (g : TagGroup), g.Fresh →
      (names.foldl (fun g name => (registerTag name g).2) g).Fresh := by
    intro names
    induction names with
    | nil => exact fun g h => h
    | cons name names ih => exact fun g h => ih _ (h.registerTag name)
  refine hfold names _ ⟨rfl, fun name e he => ?_⟩
  rw [show ((none : Option RtdeTagGroupImpl).getD {}).tags = ∅ from rfl,
    Std.ExtTreeMap.getElem?_empty] at he
  cases he

/-- When every tag is resolved, each one is, in its own place. -/
theorem resolveAll_true {inputOffsets outputOffsets : List (CStr × Nat × FieldType)}
    {tags tags' : List (CStr × RtdeTagEntry)}
    (h : resolveAll inputOffsets outputOffsets tags = (true, tags')) :
    List.Forall₂ (fun x x' => x.1 = x'.1 ∧ ∃ off ft,
      (if x.2.isInput then inputOffsets else outputOffsets).lookup x.2.baseName = some (off, ft) ∧
      x.2.resolve off ft = (true, x'.2)) tags tags' := by
  induction tags generalizing tags' with
  | nil =>
    obtain ⟨-, rfl⟩ := Prod.mk.inj h
    exact .nil
  | cons x tags ih =>
    obtain ⟨name, e⟩ := x
    rw [resolveAll] at h
    cases hlookup : (if e.isInput then inputOffsets else outputOffsets).lookup e.baseName with
    | none =>
      rw [hlookup] at h
      cases h
    | some p =>
      obtain ⟨off, ft⟩ := p
      rw [hlookup] at h
      rcases hresolve : e.resolve off ft with ⟨_ | _, e'⟩
      · simp only [hresolve] at h
        cases h
      · rcases hrest : resolveAll inputOffsets outputOffsets tags with ⟨_ | _, rest⟩
        · simp only [hresolve, hrest, if_true] at h
          cases h
        · simp only [hresolve, hrest, if_true, Prod.mk.injEq, true_and] at h
          subst h
          exact .cons ⟨rfl, off, ft, hlookup, hresolve⟩ (ih hrest)

/-- Resolving keeps the names of the tags. -/
theorem resolveAll_names (inputOffsets outputOffsets : List (CStr × Nat × FieldType))
    (tags : List (CStr × RtdeTagEntry)) :
    (resolveAll inputOffsets outputOffsets tags).2.map Prod.fst = tags.map Prod.fst := by
  induction tags with
  | nil => rfl
  | cons x tags ih =>
    obtain ⟨name, e⟩ := x
    rw [resolveAll]
    cases (if e.isInput then inputOffsets else outputOffsets).lookup e.baseName with
    | none => rfl
    | some p =>
      obtain ⟨off, ft⟩ := p
      simp only
      split
      · rw [List.map_cons, List.map_cons, ih]
      · rfl

/-- The tags of a session have names of their own. -/
theorem resolveAll_distinct (inputOffsets outputOffsets : List (CStr × Nat × FieldType))
    (g : TagGroup) :
    (resolveAll inputOffsets outputOffsets (sessionTags g)).2.Pairwise
      fun x y => ¬ compare x.1 y.1 = .eq := by
  have hsession : (sessionTags g).Pairwise fun x y => ¬ compare x.1 y.1 = .eq :=
    Std.ExtTreeMap.distinct_keys_toList
  rw [← List.pairwise_map (f := Prod.fst) (R := fun x y => ¬ compare x y = .eq)] at hsession ⊢
  rw [resolveAll_names]
  exact hsession

variable (hs : Handshake connect g)

/-- The recipes of a session: the names in the order they were sent in, with the types granted. -/
def Handshake.inputRecipe : Recipe := (inputNames g).zip hs.inputs.types

def Handshake.outputRecipe : Recipe := (outputNames g).zip hs.outputs.types

/-- The offset table a tag is resolved against. -/
def Handshake.table (isInput : Bool) : List (CStr × Nat × FieldType) :=
  if isInput then offsetTable 0 (inputNames g) hs.inputs.types
  else offsetTable 0 (outputNames g) hs.outputs.types

def Handshake.recipe (isInput : Bool) : Recipe :=
  if isInput then hs.inputRecipe else hs.outputRecipe

/-- A tag as a session leaves it: made from its name, placed in its recipe, initialised. -/
structure Handshake.Ready (name : CStr) (e : RtdeTagEntry) : Prop where
  fromName : FromName name e
  initialized : e.initialized = true
  placed : ∃ off ft, Placed (hs.table e.isInput) e off ft

/-- What two lists have in common, from the second. -/
private theorem exists_of_forall₂ {α β : Type} {R : α → β → Prop} {xs : List α} {ys : List β}
    (h : List.Forall₂ R xs ys) : ∀ y ∈ ys, ∃ x ∈ xs, R x y := by
  induction h with
  | nil => exact fun y hy => (List.not_mem_nil hy).elim
  | cons hxy _ ih =>
    intro y hy
    rcases List.mem_cons.mp hy with rfl | hy
    · exact ⟨_, List.mem_cons_self, hxy⟩
    · obtain ⟨x, hx, hR⟩ := ih y hy
      exact ⟨x, List.mem_cons_of_mem _ hx, hR⟩

/-- A map rebuilt from a list of distinct keys holds the list. -/
theorem mem_of_getElem?_ofList {tags : List (CStr × RtdeTagEntry)} {name : CStr} {e : RtdeTagEntry}
    (hdistinct : tags.Pairwise fun x y => ¬ compare x.1 y.1 = .eq)
    (h : (Std.ExtTreeMap.ofList tags compare)[name]? = some e) : (name, e) ∈ tags := by
  cases hcontains : (tags.map Prod.fst).contains name with
  | false =>
    rw [Std.ExtTreeMap.getElem?_ofList_of_contains_eq_false hcontains] at h
    cases h
  | true =>
    obtain ⟨⟨n, e'⟩, hmem, rfl⟩ := List.mem_map.mp (List.contains_iff_mem.mp hcontains)
    rw [Std.ExtTreeMap.getElem?_ofList_of_mem Std.ReflCmp.compare_self hdistinct hmem] at h
    obtain rfl := Option.some.inj h
    exact hmem

/-- A session has the tags of its group. -/
theorem Handshake.tags_names : hs.tags.map Prod.fst = (sessionTags g).map Prod.fst := by
  have hnames := resolveAll_names (offsetTable 0 (inputNames g) hs.inputs.types)
    (offsetTable 0 (outputNames g) hs.outputs.types) (sessionTags g)
  rw [hs.resolved] at hnames
  exact hnames

/-- The tags of a handshake have names of their own. -/
theorem Handshake.tags_distinct : hs.tags.Pairwise fun x y => ¬ compare x.1 y.1 = .eq := by
  have hdistinct := resolveAll_distinct (offsetTable 0 (inputNames g) hs.inputs.types)
    (offsetTable 0 (outputNames g) hs.outputs.types) g
  rw [hs.resolved] at hdistinct
  exact hdistinct

/-- A session has the tags that were registered. -/
theorem Handshake.mem_tags (name : CStr) :
    name ∈ hs.impl.tags ↔ name ∈ (g.rtdeImpl.getD {}).tags := by
  rw [Handshake.impl, markInitialized, Std.ExtTreeMap.mem_map, Std.ExtTreeMap.mem_ofList,
    hs.tags_names, sessionTags, Std.ExtTreeMap.map_fst_toList_eq_keys, List.contains_iff_mem,
    Std.ExtTreeMap.mem_keys, resetTags, Std.ExtTreeMap.mem_map]

/-- A tag that is initialised has its field in the recipe. -/
theorem Handshake.ready (hfresh : g.Fresh) {name : CStr} {e : RtdeTagEntry}
    (h : hs.impl.tags[name]? = some e) : hs.Ready name e := by
  rw [Handshake.impl, markInitialized, Std.ExtTreeMap.getElem?_map] at h
  obtain ⟨e₁, he₁, rfl⟩ := Option.map_eq_some_iff.mp h
  have hmem := mem_of_getElem?_ofList hs.tags_distinct he₁
  obtain ⟨⟨n, e₀⟩, he₀, rfl, off, ft, hlookup, hresolve⟩ :=
    exists_of_forall₂ (resolveAll_true hs.resolved) _ hmem
  rw [sessionTags, resetTags, Std.ExtTreeMap.mem_toList_iff_getElem?_eq_some,
    Std.ExtTreeMap.getElem?_map] at he₀
  obtain ⟨e', he', rfl⟩ := Option.map_eq_some_iff.mp he₀
  obtain ⟨⟨hparse, hinput⟩, hbit⟩ := hfresh.tags n e' he'
  obtain ⟨hplaced, hname⟩ := resolve_placed hlookup hbit hresolve
  refine ⟨⟨?_, ?_⟩, rfl, off, ft, ?_⟩
  · rw [show ({ e₁ with initialized := true } : RtdeTagEntry).baseName = e'.baseName from
        hname.baseName,
      show ({ e₁ with initialized := true } : RtdeTagEntry).elementIndex = e'.elementIndex from
        hname.elementIndex,
      show ({ e₁ with initialized := true } : RtdeTagEntry).hasBrackets = e'.hasBrackets from
        hname.hasBrackets]
    exact hparse
  · show e₁.isInput = rtdeIsInputName e₁.baseName
    rw [hname.isInput, hname.baseName]
    exact hinput
  · have htable : hs.table e₁.isInput = if e'.isInput then
        offsetTable 0 (inputNames g) hs.inputs.types
        else offsetTable 0 (outputNames g) hs.outputs.types := by
      rw [Handshake.table, show e₁.isInput = e'.isInput from hname.isInput]
    show Placed (hs.table e₁.isInput) { e₁ with initialized := true } off ft
    rw [htable]
    exact ⟨hplaced.lookup, hplaced.baseType, hplaced.index_nonneg, hplaced.bitIndexed, hplaced.bit,
      hplaced.scalar⟩

/-- A variable of a recipe that was granted has a type a package can carry, unless it has no name. -/
theorem Handshake.concrete {isInput : Bool} {base : CStr} {off : Nat} {ft : FieldType}
    (h : (hs.table isInput).lookup base = some (off, ft)) (hbase : base ≠ []) : ft.Concrete := by
  cases isInput with
  | false =>
    obtain ⟨_, _, hmem, _⟩ := lookup_offsetTable h
    exact (setup_ok hs.setupOutputs hs.outputs_ok).2.2.1 _ hmem hbase
  | true =>
    obtain ⟨_, _, hmem, _⟩ := lookup_offsetTable h
    have hsetup := hs.setupInputs
    by_cases hin : inputNames g = []
    · rw [hin] at hmem
      cases hmem
    · rw [setupInputsIfAny, if_neg hin] at hsetup
      exact (setup_ok hsetup hs.inputs_ok).2.2.1 _ hmem hbase

/-- An input recipe that was set up has the id its reply came with. -/
theorem Handshake.recipeId_eq (hin : inputNames g ≠ []) :
    hs.inputs.recipeId = some hs.impl.inputRecipeId := by
  have hsetup := hs.setupInputs
  rw [setupInputsIfAny, if_neg hin] at hsetup
  obtain ⟨recipeId, hid⟩ := Option.isSome_iff_exists.mp (setup_ok hsetup hs.inputs_ok).2.2.2
  rw [Handshake.impl, hid, Option.getD_some]

/-- The payloads have the sizes of their recipes. -/
theorem Handshake.payload_lengths :
    hs.impl.inputPayload.length = hs.inputRecipe.size ∧
      hs.impl.outputPayload.length = hs.outputRecipe.size := by
  constructor
  · rw [Handshake.impl, List.length_replicate]
    have hsetup := hs.setupInputs
    by_cases hin : inputNames g = []
    · rw [setupInputsIfAny, if_pos hin] at hsetup
      rw [Handshake.inputRecipe, ← (Prod.mk.inj hsetup).1, hin]
      rfl
    · rw [setupInputsIfAny, if_neg hin] at hsetup
      exact payloadSize_eq (setup_ok hsetup hs.inputs_ok).2.1
  · rw [Handshake.impl, List.length_replicate]
    exact payloadSize_eq (setup_ok hs.setupOutputs hs.outputs_ok).2.1

/-! ## A session that is served -/

/-- What the group's data keeps while a session runs: the connection is open, the initialised tags
stand where the handshake placed them, and the payloads keep their sizes. -/
structure Handshake.Serving (g' : TagGroup) (impl : RtdeTagGroupImpl) : Prop where
  rtdeImpl : g'.rtdeImpl = some impl
  hasError : g'.hasError = false
  isOpen : ∃ c s, impl.client = some c ∧ c.socket = some s
  started : impl.started = true
  tags : ∀ name e, impl.tags[name]? = some e → e.initialized = true → hs.Ready name e
  inputRecipeSetup : impl.inputRecipeSetup = decide (inputNames g ≠ [])
  inputRecipeId : impl.inputRecipeId = hs.impl.inputRecipeId
  outputRecipeId : impl.outputRecipeId = hs.impl.outputRecipeId
  inputLength : impl.inputPayload.length = hs.inputRecipe.size
  outputLength : impl.outputPayload.length = hs.outputRecipe.size

/-- The session serves from its start. -/
theorem Handshake.serving (hfresh : g.Fresh) : hs.Serving hs.group hs.impl := by
  obtain ⟨s, hs'⟩ := Option.isSome_iff_exists.mp (start_true hs.started).2
  exact ⟨rfl, hfresh.hasError, ⟨hs.client, s, rfl, hs'⟩, rfl, fun name e h _ => hs.ready hfresh h,
    rfl, rfl, rfl, hs.payload_lengths.1, hs.payload_lengths.2⟩

variable {hs} {g' : TagGroup} {impl : RtdeTagGroupImpl}

/-- A session that serves has started. -/
theorem Handshake.Serving.sessionStarted (h : hs.Serving g' impl) :
    rtdeSessionStarted g' = true := by
  obtain ⟨c, s, hclient, hsocket⟩ := h.isOpen
  rw [rtdeSessionStarted, h.rtdeImpl]
  simp only [hclient, Option.any_some, Client.isOpen, hsocket, Option.isSome_some, h.started,
    Bool.and_self]

/-- The variable of a ready tag lies in its recipe's payload. -/
theorem Handshake.Ready.fits {name : CStr} {e : RtdeTagEntry} (h : hs.Ready name e) :
    ∃ off ft, Placed (hs.table e.isInput) e off ft ∧
      off + fieldSize ft ≤ (hs.recipe e.isInput).size := by
  obtain ⟨off, ft, hplaced⟩ := h.placed
  refine ⟨off, ft, hplaced, ?_⟩
  have hlookup := hplaced.lookup
  cases hin : e.isInput with
  | true =>
    rw [hin] at hlookup
    have hend := (lookup_offsetTable hlookup).2.1
    rw [Nat.zero_add] at hend
    exact hend
  | false =>
    rw [hin] at hlookup
    have hend := (lookup_offsetTable hlookup).2.1
    rw [Nat.zero_add] at hend
    exact hend

/-! ## A session small enough to run -/

/-- One output and one input variable. -/
def cellGroup : TagGroup :=
  registered 0 [] ["timestamp".toList, "input_bit_register_64".toList]

/-- A controller that grants them as a `DOUBLE` and a `BOOL`, on a socket with the given answers
once the handshake is over. -/
def cellSocket (sends : List SendAnswer) : Socket where
  sends := List.replicate 4 (.accepted 100) ++ sends
  recvs := [.bytes [0, 4, 86, 1], .bytes ([0, 10, 79, 1] ++ toBytes "DOUBLE".toList),
    .bytes ([0, 8, 73, 2] ++ toBytes "BOOL".toList), .bytes [0, 4, 83, 1]]

end OipComms.Rtde
