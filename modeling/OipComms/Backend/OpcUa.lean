import OipComms.Backend.Group

/-!
# An OPC UA group

A client is one session. It is made by the first poll, and made anew by every poll that does not
find it connected. A read or a write whose status says that the session is dead invalidates it: the
client goes, and every tag is to be resolved again.
-/

namespace OipComms.Backend

open Comms (TagType)
open Sweep

/-- The status codes that are told apart. -/
inductive UaStatusCode
  | good
  | badSessionIdInvalid
  | badSessionClosed
  | badSessionNotActivated
  | badSecureChannelIdInvalid
  | badConnectionClosed
  | badServerNotConnected
  | badNotConnected
  | other
  deriving DecidableEq, Repr

/-- `opc_ua_status_indicates_dead_session`. -/
def opcUaStatusIndicatesDeadSession : UaStatusCode → Bool
  | .good | .other => false
  | _ => true

/-- What open62541 answers in a poll: the state of the client, the status of a connect, the index of
a namespace, whether a text is a node id, and the status of a read with the type of the value. -/
structure UaEnv where
  stateGood : Bool := true
  connect : UaStatusCode := .good
  namespaceIndex : CStr → Option Nat := fun _ => some 1
  parse : CStr → Bool := fun _ => true
  read : CStr → UaStatusCode × UaType := fun _ => (.good, .scalar .bool)

/-- What it answers in a write: whether the value has the type of the call, the two looks at the
state of the client, and the status of the write. -/
structure UaWriteEnv where
  typed : Bool := true
  stateGood : Bool := true
  stillGood : Bool := true
  write : UaStatusCode := .good

variable {V : Type}

/-! ## The session -/

/-- `opc_ua_client_connected`. -/
def TagGroup.opcUaClientConnected (g : TagGroup V) (stateGood : Bool) : Bool :=
  g.client.isSome && stateGood

/-- The client of a group is deleted. -/
def Visit.dropOpcUaClient (v : Visit V) : Visit V :=
  (v.withGroup { v.group with client := none }).makes
    (releases (v.group.client.toList.map .uaClient))

/-- `init_opc_ua_client`. -/
def Visit.initOpcUaClient (env : UaEnv) (v : Visit V) : Bool × Visit V :=
  let v := v.dropOpcUaClient
  let client := v.next
  let v := { v with next := client + 1 }.makes [.acquire (.uaClient client)]
  if env.connect = .good then (true, v.withGroup { v.group with client := some client })
  else (false, v.makes [.release (.uaClient client)])

/-- Making a client changes the client of a group. -/
theorem Visit.initOpcUaClient_group (env : UaEnv) (v : Visit V) :
    (v.initOpcUaClient env).2.group =
      { v.group with client := if env.connect = .good then some v.next else none } := by
  unfold Visit.initOpcUaClient
  simp only
  split
  · rfl
  · rfl

/-- A tag of a session that is gone. -/
def OpcUaTag.invalidated (tag : OpcUaTag) : OpcUaTag := if tag.initialized then {} else tag

/-- `invalidate_opc_ua_session`. -/
def Visit.invalidateOpcUaSession (v : Visit V) : Visit V :=
  let v := v.dropOpcUaClient
  { v with
    group := { v.group with
      opcUaTags := v.group.opcUaTags.map fun _ tag => tag.invalidated
      initCount := 0
      hasError := false
      needsSessionRecoveredSignal := true }
    invalidated := true }

/-! ## Polling -/

/-- The text of a tag's node id: a namespace given by its URI is looked up. -/
def resolvedPath (env : UaEnv) (tagPath : CStr) : Option CStr :=
  if "nsu=".toList.isPrefixOf tagPath then
    match tagPath.idxOf? ';' with
    | none => none
    | some semicolon =>
      (env.namespaceIndex ((tagPath.drop 4).take (semicolon - 4))).map fun nsIndex =>
        "ns=".toList ++ (toString nsIndex).toList ++ tagPath.drop semicolon
  else some tagPath

/-- `init_opc_ua_tag`, without the count. -/
def initOpcUaTag (env : UaEnv) (client : Nat) (tagPath : CStr) (tag : OpcUaTag) : Bool × OpcUaTag :=
  let tag := { tag with value := none }
  match resolvedPath env tagPath with
  | none => (false, tag)
  | some text =>
    if env.parse text then
      (true, { tag with nodeId := some { session := client, text := text }, initialized := true })
    else (false, { tag with nodeId := none })

/-- A tag is read. -/
def readOpcUaTag (env : UaEnv) (client : Nat) (tagPath : CStr) (tag : OpcUaTag) (counted : Nat) :
    Swept OpcUaTag (Effect V) :=
  let out : Effect V := { counted := counted, calls := [.uaRead client tag.nodeId] }
  let (status, ty) := env.read tagPath
  if status = .good then { entry := { tag with value := some ty }, out := out }
  else if opcUaStatusIndicatesDeadSession status then
    { entry := tag, out := { out with dead := true }, goes := false }
  else { entry := tag, out := { out with stops := true }, goes := false }

/-- A tag's turn in `process_opc_ua_tag_group`. A tag that cannot be resolved, or is not there to be
read, stops the simulation. -/
def pollOpcUaTag (env : UaEnv) (client : Nat) (tagPath : CStr) (tag : OpcUaTag) :
    Swept OpcUaTag (Effect V) :=
  if tag.initialized then readOpcUaTag env client tagPath tag 0
  else
    match initOpcUaTag env client tagPath tag with
    | (false, tag) => { entry := tag, out := { stops := true }, goes := false }
    | (true, tag) => readOpcUaTag env client tagPath tag 1

/-- The tags of a group whose client is connected. -/
def Visit.pollOpcUaTags (env : UaEnv) (client : Nat) (v : Visit V) : Visit V :=
  let s := sweep (pollOpcUaTag env client) v.group.opcUaTags
  let v := (v.withGroup { v.group with opcUaTags := s.entries }).absorb s.outs
  if s.outs.any Effect.dead then v.invalidateOpcUaSession else v

/-- `process_opc_ua_tag_group`. -/
def Visit.processOpcUaTagGroup (env : UaEnv) (v : Visit V) : Visit V :=
  let (connected, v) :=
    if v.group.opcUaClientConnected env.stateGood then (true, v) else v.initOpcUaClient env
  match v.group.client with
  | some client => if connected then v.pollOpcUaTags env client else v
  | none => v

/-- A poll finds the client connected; or it makes a new one, and goes on if it could. -/
theorem processOpcUaTagGroup_cases (env : UaEnv) (v : Visit V) :
    (∃ client, v.group.client = some client ∧ env.stateGood = true ∧
      v.processOpcUaTagGroup env = v.pollOpcUaTags env client) ∨
    v.group.opcUaClientConnected env.stateGood = false ∧
      v.processOpcUaTagGroup env =
        if env.connect = .good then (v.initOpcUaClient env).2.pollOpcUaTags env v.next
        else (v.initOpcUaClient env).2 := by
  unfold Visit.processOpcUaTagGroup
  cases hconnected : v.group.opcUaClientConnected env.stateGood with
  | true =>
    obtain ⟨hsome, hgood⟩ := Bool.and_eq_true_iff.mp hconnected
    obtain ⟨client, hclient⟩ := Option.isSome_iff_exists.mp hsome
    refine .inl ⟨client, hclient, hgood, ?_⟩
    simp only [if_true, hclient]
  | false =>
    refine .inr ⟨rfl, ?_⟩
    simp only [Bool.false_eq_true, if_false, Visit.initOpcUaClient]
    by_cases hconnect : env.connect = .good
    · simp only [if_pos hconnect]
      rfl
    · simp only [if_neg hconnect]
      rfl

/-! ## Writing -/

/-- `opc_write`. -/
def Visit.opcWrite (env : UaWriteEnv) (v : Visit V) (tagPath : CStr) : Visit V :=
  match v.group.client with
  | none => v
  | some client =>
    let tag := (v.group.opcUaTags[tagPath]?).getD {}
    if env.stillGood && tag.initialized then
      let v := v.makes [.uaWrite client tag.nodeId]
      if opcUaStatusIndicatesDeadSession env.write then v.invalidateOpcUaSession else v
    else v

/-- A write is not made, or is made with the node id of a tag that is initialised; the session is
invalidated if it is found dead. -/
theorem opcWrite_cases (env : UaWriteEnv) (v : Visit V) (tagPath : CStr) :
    v.opcWrite env tagPath = v ∨
      ∃ client, v.group.client = some client ∧
        ((v.group.opcUaTags[tagPath]?).getD {}).initialized = true ∧
        ∃ v', v' = v.makes [.uaWrite client ((v.group.opcUaTags[tagPath]?).getD {}).nodeId] ∧
          (v.opcWrite env tagPath = v' ∨ v.opcWrite env tagPath = v'.invalidateOpcUaSession) := by
  unfold Visit.opcWrite
  cases hclient : v.group.client with
  | none => exact .inl rfl
  | some client =>
    simp only
    split
    · rename_i hyes
      refine .inr ⟨client, rfl, (Bool.and_eq_true_iff.mp hyes).2, _, rfl, ?_⟩
      split
      · exact .inr rfl
      · exact .inl rfl
    · exact .inl rfl

/-- `opc_tag_set`. The look-up with `operator[]` creates the tag that is not there. -/
def Visit.opcTagSet (env : UaWriteEnv) (v : Visit V) (tagPath : CStr) (ty : TagType) : Visit V :=
  if env.typed && v.group.opcUaClientConnected env.stateGood then
    let tag := (v.group.opcUaTags[tagPath]?).getD {}
    if tag.initialized then
      let tag := { tag with value := some (.scalar ty) }
      (v.withGroup { v.group with opcUaTags := v.group.opcUaTags.insert tagPath tag }).opcWrite
        env tagPath
    else v.withGroup { v.group with opcUaTags := v.group.opcUaTags.insert tagPath tag }
  else v

/-! ## What is touched -/

/-- A group as OPC UA leaves it. -/
def TagGroup.UaOf (g g' : TagGroup V) : Prop :=
  ∃ client opcUaTags initCount hasError signal, g' =
    { g with
      client := client, opcUaTags := opcUaTags, initCount := initCount, hasError := hasError
      needsSessionRecoveredSignal := signal }

/-- The reads of a poll change only the OPC UA part. -/
theorem Visit.pollOpcUaTags_uaOf (env : UaEnv) (client : Nat) (v : Visit V) :
    v.group.UaOf (v.pollOpcUaTags env client).group := by
  unfold Visit.pollOpcUaTags
  simp only
  split
  · exact ⟨_, _, _, _, _, rfl⟩
  · exact ⟨_, _, _, _, _, rfl⟩

/-- A poll changes only the OPC UA part. -/
theorem Visit.processOpcUaTagGroup_uaOf (env : UaEnv) (v : Visit V) :
    v.group.UaOf (v.processOpcUaTagGroup env).group := by
  rcases processOpcUaTagGroup_cases env v with ⟨client, -, -, hpoll⟩ | ⟨-, hpoll⟩
  · rw [hpoll]
    exact v.pollOpcUaTags_uaOf env client
  · rw [hpoll]
    split
    · obtain ⟨_, _, _, _, _, hgroup⟩ := (v.initOpcUaClient env).2.pollOpcUaTags_uaOf env v.next
      rw [hgroup, v.initOpcUaClient_group env]
      exact ⟨_, _, _, _, _, rfl⟩
    · rw [v.initOpcUaClient_group env]
      exact ⟨_, _, _, _, _, rfl⟩

/-- A write changes only the OPC UA part. -/
theorem Visit.opcTagSet_uaOf (env : UaWriteEnv) (v : Visit V) (tagPath : CStr) (ty : TagType) :
    v.group.UaOf (v.opcTagSet env tagPath ty).group := by
  unfold Visit.opcTagSet
  split
  · simp only
    split
    · rcases opcWrite_cases env _ tagPath with hwrite | ⟨client, -, -, v', rfl, hwrite | hwrite⟩
      · rw [hwrite]
        exact ⟨_, _, _, _, _, rfl⟩
      · rw [hwrite]
        exact ⟨_, _, _, _, _, rfl⟩
      · rw [hwrite]
        exact ⟨_, _, _, _, _, rfl⟩
    · exact ⟨_, _, _, _, _, rfl⟩
  · exact ⟨_, _, _, _, _, rfl⟩

/-! ## A turn -/

/-- The node id a tag has in the session of `client`: the one it had, or a new one. -/
def NodeOf (client : Nat) (tag : OpcUaTag) (node : Option NodeId) : Prop :=
  tag.initialized = true ∧ node = tag.nodeId ∨ ∃ text, node = some { session := client, text := text }

/-- What is known of a turn: it counts the tag if it becomes initialised, calls only to read it, and
ends the sweep by finding the session dead or stopping the simulation. -/
structure UaTurn (client : Nat) (tag : OpcUaTag) (r : Swept OpcUaTag (Effect V)) : Prop where
  counts : (if tag.initialized then 1 else 0) + r.out.counted =
    if r.entry.initialized then 1 else 0
  calls : ∀ c ∈ r.out.calls, ∃ node, c = .uaRead client node ∧ NodeOf client tag node
  node : r.entry.initialized = true → NodeOf client tag r.entry.nodeId
  failed : r.out.failed = false
  ends : r.goes = !(r.out.dead || r.out.stops)
  initializes : r.goes = true → r.entry.initialized = true

/-- A tag that has its node id is read. -/
theorem readOpcUaTag_turn (env : UaEnv) {client : Nat} (tagPath : CStr) {tag tag' : OpcUaTag}
    {counted : Nat} (hinitialized : tag'.initialized = true)
    (hcounted : (if tag.initialized then 1 else 0) + counted = 1)
    (hnode : NodeOf client tag tag'.nodeId) :
    UaTurn client tag (readOpcUaTag env client tagPath tag' counted :
      Swept OpcUaTag (Effect V)) := by
  have hcalls : ∀ c ∈ [LibCall.uaRead (V := V) client tag'.nodeId],
      ∃ node, c = .uaRead client node ∧ NodeOf client tag node :=
    fun c hc => ⟨_, List.mem_singleton.mp hc, hnode⟩
  have hcounts : ∀ tag'' : OpcUaTag, tag''.initialized = true →
      (if tag.initialized then 1 else 0) + counted = if tag''.initialized then 1 else 0 := by
    intro tag'' h
    rw [hcounted, h, if_pos rfl]
  unfold readOpcUaTag
  rcases env.read tagPath with ⟨status, ty⟩
  simp only
  split
  · exact ⟨hcounts _ hinitialized, hcalls, fun _ => hnode, rfl, rfl, fun _ => hinitialized⟩
  · split
    · exact ⟨hcounts _ hinitialized, hcalls, fun _ => hnode, rfl, rfl, fun hgoes => nomatch hgoes⟩
    · exact ⟨hcounts _ hinitialized, hcalls, fun _ => hnode, rfl, rfl, fun hgoes => nomatch hgoes⟩

/-- A tag is resolved in the session it will be read in, or stays as it was not initialised. -/
theorem initOpcUaTag_entry (env : UaEnv) (client : Nat) (tagPath : CStr) {tag : OpcUaTag}
    (h : tag.initialized = false) :
    (initOpcUaTag env client tagPath tag).2.initialized = (initOpcUaTag env client tagPath tag).1 ∧
      ((initOpcUaTag env client tagPath tag).1 = true →
        NodeOf client tag (initOpcUaTag env client tagPath tag).2.nodeId) := by
  unfold initOpcUaTag
  cases resolvedPath env tagPath with
  | none => exact ⟨h, fun hno => nomatch hno⟩
  | some text =>
    simp only
    split
    · exact ⟨rfl, fun _ => .inr ⟨text, rfl⟩⟩
    · exact ⟨h, fun hno => nomatch hno⟩

/-- A turn of the poll looks its tag up, reads it or finds the session dead. -/
theorem pollOpcUaTag_turn (env : UaEnv) (client : Nat) (tagPath : CStr) (tag : OpcUaTag) :
    UaTurn client tag (pollOpcUaTag env client tagPath tag : Swept OpcUaTag (Effect V)) := by
  unfold pollOpcUaTag
  cases hinitialized : tag.initialized with
  | true =>
    rw [if_pos rfl]
    refine readOpcUaTag_turn env tagPath hinitialized ?_ (.inl ⟨hinitialized, rfl⟩)
    rw [hinitialized, if_pos rfl]
  | false =>
    obtain ⟨hentry, hnode⟩ := initOpcUaTag_entry env client tagPath hinitialized
    rw [if_neg Bool.false_ne_true]
    cases hresult : initOpcUaTag env client tagPath tag with
    | mk ok tag' =>
      rw [hresult] at hentry hnode
      cases ok with
      | false =>
        have hentry : tag'.initialized = false := hentry
        refine ⟨?_, fun c hc => absurd hc List.not_mem_nil, fun hinit => ?_, rfl, rfl,
          fun hgoes => nomatch hgoes⟩
        · simp only [hinitialized, hentry, Nat.add_zero]
        · exact absurd (hentry.symm.trans hinit) Bool.false_ne_true
      | true =>
        refine readOpcUaTag_turn env tagPath hentry ?_ (hnode rfl)
        rw [hinitialized, if_neg Bool.false_ne_true]

end OipComms.Backend
