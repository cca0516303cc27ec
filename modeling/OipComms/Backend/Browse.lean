import Mathlib.Data.Finset.Lattice.Lemmas
import Mathlib.Data.Finset.Option
import OipComms.Backend.OpcUa
import OipComms.Backend.System
import OipComms.Lib.Custody

/-!
# Browsing an OPC UA server

The editor browses a server through a client of its own, outside the groups. A call that finds the
session dead connects anew, once before it sends its request and once when the answer says so; after
a connect that fails there is no client, and no endpoint to connect to again.

What the calls are handed they give back: the client, the node id that is parsed, each page of
references and the attributes that are read. Only, the point at which the next page continues is in
the page before, which is cleared by then (`browse_custody`).
-/

namespace OipComms.Backend

open Custody Run

/-- What the calls are handed: the client, and what open62541 stores in the locals of a call. -/
inductive BrowseRef
  | client (address : Nat)
  | nodeId (address : Nat)
  | result (address : Nat)
  | value (address : Nat)
  | text (address : Nat)
  deriving DecidableEq, Repr

/-- `UA_ReferenceDescription`, as far as it is looked at. -/
structure Reference where
  nodeId : CStr
  displayName : CStr
  nodeClass : Nat
  browseName : CStr
  deriving DecidableEq, Repr

/-- `UA_BrowseResult`: a page of references, and where to continue. -/
structure BrowseResult where
  statusCode : UaStatusCode := .good
  references : List Reference := []
  continuationPoint : List UInt8 := []
  deriving DecidableEq, Repr

/-- The scalars `ua_variant_to_string` tells apart. -/
inductive UaScalar
  | boolean (b : Bool)
  | int16 (v : Int16)
  | uint16 (v : UInt16)
  | int32 (v : Int32)
  | uint32 (v : UInt32)
  | int64 (v : Int64)
  | uint64 (v : UInt64)
  | float (bits : UInt32)
  | double (bits : UInt64)
  | string (s : CStr)
  | sbyte (v : Int8)
  | byte (v : UInt8)
  deriving DecidableEq, Repr

/-- A `UA_Variant`: the name of its type, if it has one, and what it holds. -/
structure UaVariant where
  typeName : Option CStr := none
  data : Option (Option UaScalar) := none
  deriving DecidableEq, Repr

/-- What open62541 answers in a call: the state of the client, the statuses of the first and the
second connect, whether the text is a node id, the answers to `UA_Client_browse` and
`UA_Client_browseNext` in their order, and the attributes. The answers come to an end, and a server
that has nothing more to say has closed the connection. -/
structure BrowseEnv where
  channelOpen : Bool := true
  sessionActivated : Bool := true
  connect : UaStatusCode := .good
  reconnect : UaStatusCode := .good
  parse : UaStatusCode := .good
  answers : List BrowseResult := []
  readValue : UaStatusCode × UaVariant := (.good, {})
  readAccessLevel : UaStatusCode × UInt8 := (.good, 0)
  readDescription : UaStatusCode × CStr := (.good, [])

/-- How open62541 names a status, and how Godot writes a number that is not an integer. -/
structure BrowseTexts where
  statusName : UaStatusCode → CStr
  num32 : UInt32 → CStr
  num64 : UInt64 → CStr

/-- What the calls share, the next free address, and what was done so far: what happened to what
they are handed, and what they printed, with whether it is an error. -/
structure Browser where
  client : Option Nat := none
  endpoint : CStr := []
  next : Nat := 0
  events : List (Event BrowseRef) := []
  printed : List (CStr × Bool) := []

namespace Browser

variable (texts : BrowseTexts) (s : Browser)

/-- Things happen to what was handed out. -/
def does (es : List (Event BrowseRef)) : Browser := { s with events := s.events ++ es }

/-- `print`. -/
def print (message : CStr) (error : Bool := false) : Browser :=
  { s with printed := s.printed ++ [(message, error)] }

/-- The client as a call uses it. -/
def usesClient : List (Event BrowseRef) := s.client.toList.map fun a => .use (.client a)

/-- A place that open62541 stores something in. -/
def handed (ref : Nat → BrowseRef) : Nat × Browser :=
  (s.next, { s with next := s.next + 1 }.does [.acquire (ref s.next)])

/-! ## The session -/

/-- `browse_disconnect`. -/
def browseDisconnect : Browser :=
  match s.client with
  | none => s
  | some client =>
    ({ s with client := none, endpoint := [] }.does
      [.use (.client client), .release (.client client)]).print
      "Browse client disconnected".toList

/-- `browse_connect`, with the status of `UA_Client_connect`. -/
def browseConnect (status : UaStatusCode) (endpoint : CStr) : Bool × Browser :=
  let (client, s) := s.browseDisconnect.handed .client
  let s := s.does [.use (.client client)]
  if status ≠ .good then
    (false, (s.print ("Browse connect failed with status code ".toList ++ texts.statusName status)
      true).does [.release (.client client)])
  else
    (true, { s with client := some client, endpoint := numericGateway endpoint }.print
      ("Browse client connected to ".toList ++ endpoint))

/-- `browse_is_session_alive`. -/
def browseIsSessionAlive (env : BrowseEnv) : Bool × Browser :=
  (s.client.isSome && env.channelOpen && env.sessionActivated, s.does s.usesClient)

/-- `browse_reconnect`. -/
def browseReconnect (status : UaStatusCode) : Bool × Browser :=
  if s.endpoint = [] then
    (false, s.print "Cannot reconnect browse client: no saved endpoint".toList true)
  else
    (s.print ("Reconnecting browse client to ".toList ++ s.endpoint)).browseConnect texts status
      s.endpoint

/-- `ensure_browse_session`. -/
def ensureBrowseSession (env : BrowseEnv) : Bool × Browser :=
  if s.client = none then (false, s.print "Browse client not connected".toList true)
  else
    match s.browseIsSessionAlive env with
    | (true, s) => (true, s)
    | (false, s) =>
      (s.print "Browse session not active, attempting reconnect".toList).browseReconnect texts
        env.connect

/-! ## The children of a node -/

/-- `node_class_to_string`. -/
def nodeClassToString : Nat → CStr
  | 1 => "Object".toList
  | 2 => "Variable".toList
  | 4 => "Method".toList
  | 8 => "ObjectType".toList
  | 16 => "VariableType".toList
  | 32 => "ReferenceType".toList
  | 64 => "DataType".toList
  | 128 => "View".toList
  | _ => "Unknown".toList

/-- An entry of the list of children. -/
structure Entry where
  nodeId : CStr
  displayName : CStr
  nodeClass : CStr
  browseName : CStr
  deriving DecidableEq, Repr

def entryOf (ref : Reference) : Entry where
  nodeId := ref.nodeId
  displayName := ref.displayName
  nodeClass := nodeClassToString ref.nodeClass
  browseName := ref.browseName

/-- The next answer of the server. -/
def nextAnswer : List BrowseResult → BrowseResult × List BrowseResult
  | [] => ({ statusCode := .badConnectionClosed }, [])
  | br :: answers => (br, answers)

/-- The loop over the pages, from a page that is there. The point to continue from is read in the
page after it is cleared. -/
def listPages (br : BrowseResult) (page : Nat) :
    List BrowseResult → Browser → List Entry × Browser
  | answers, s =>
    let entries := br.references.map entryOf
    if br.continuationPoint = [] then (entries, s.does [.release (.result page)])
    else
      let s := s.does (.release (.result page) :: s.usesClient ++ [.use (.result page)])
      let (page, s) := s.handed .result
      match answers with
      | [] =>
        (entries, (s.print ("BrowseNext failed: ".toList ++
          texts.statusName .badConnectionClosed) true).does [.release (.result page)])
      | br :: answers =>
        if br.statusCode ≠ .good then
          (entries, (s.print ("BrowseNext failed: ".toList ++ texts.statusName br.statusCode)
            true).does [.release (.result page)])
        else
          let (more, s) := listPages br page answers s
          (entries ++ more, s)

/-- `UA_Client_browse`. -/
def browse (node : Nat) : Nat × Browser :=
  (s.does (s.usesClient ++ [.use (.nodeId node)])).handed .result

/-- `browse_children` from the answer that is not taken for a dead session. -/
def listChildren (node : Nat) (br : BrowseResult) (page : Nat) (answers : List BrowseResult) :
    List Entry × Browser :=
  if br.statusCode ≠ .good then
    ([], (s.print ("Browse failed: ".toList ++ texts.statusName br.statusCode) true).does
      [.release (.result page), .release (.nodeId node)])
  else
    let (entries, s) := listPages texts br page answers s
    (entries, s.does [.release (.nodeId node)])

/-- `browse_children` after an answer that says the session is dead: once more, if it connects. -/
def browseAgain (env : BrowseEnv) (node : Nat) (answers : List BrowseResult) :
    List Entry × Browser :=
  match s.browseReconnect texts env.reconnect with
  | (false, s) => ([], s.does [.release (.nodeId node)])
  | (true, s) =>
    let (page, s) := s.browse node
    let (br, answers) := nextAnswer answers
    s.listChildren texts node br page answers

/-- `browse_children`. -/
def browseChildren (env : BrowseEnv) (nodeId : CStr) : List Entry × Browser :=
  match s.ensureBrowseSession texts env with
  | (false, s) => ([], s)
  | (true, s) =>
    if env.parse ≠ .good then
      ([], s.print ("Failed to parse node ID for browse: ".toList ++ nodeId) true)
    else
      let (node, s) := s.handed .nodeId
      let (page, s) := s.browse node
      let (br, answers) := nextAnswer env.answers
      if opcUaStatusIndicatesDeadSession br.statusCode then
        let s := (s.print ("Browse session dropped (".toList ++ texts.statusName br.statusCode ++
          "), reconnecting".toList)).does [.release (.result page)]
        s.browseAgain texts env node answers
      else s.listChildren texts node br page answers

/-! ## The attributes of a node -/

/-- `String::num_int64`. -/
def numInt64 (v : Int) : CStr := (toString v).toList

/-- `ua_variant_to_string` of a scalar. A `UInt64` is handed on as an `int64_t`. -/
def uaScalarToString : UaScalar → CStr
  | .boolean b => if b then "True".toList else "False".toList
  | .int16 v => numInt64 v.toInt
  | .uint16 v => numInt64 v.toNat
  | .int32 v => numInt64 v.toInt
  | .uint32 v => numInt64 v.toNat
  | .int64 v => numInt64 v.toInt
  | .uint64 v => numInt64 v.toInt64.toInt
  | .float bits => texts.num32 bits
  | .double bits => texts.num64 bits
  | .string s => s
  | .sbyte v => numInt64 v.toInt
  | .byte v => numInt64 v.toNat

/-- `ua_variant_to_string`. -/
def uaVariantToString (value : UaVariant) : CStr :=
  match value.typeName, value.data with
  | none, _ | _, none => []
  | some _, some (some scalar) => uaScalarToString texts scalar
  | some _, some none => "(complex)".toList

/-- The text of an access level. -/
def accessText (accessLevel : UInt8) : CStr :=
  let access := if accessLevel &&& 1 ≠ 0 then "Read".toList else []
  if accessLevel &&& 2 ≠ 0 then
    (if access ≠ [] then access ++ ", ".toList else access) ++ "Write".toList
  else access

/-- The answer of `browse_node_info`: the entries that are there. -/
structure NodeInfo where
  nodeId : Option CStr := none
  value : Option CStr := none
  type : Option CStr := none
  access : Option CStr := none
  description : Option CStr := none
  deriving DecidableEq, Repr

/-- `browse_node_info`. -/
def browseNodeInfo (env : BrowseEnv) (nodeId : CStr) : NodeInfo × Browser :=
  match s.ensureBrowseSession texts env with
  | (false, s) => ({}, s)
  | (true, s) =>
    if env.parse ≠ .good then ({}, s.print ("Failed to parse node ID: ".toList ++ nodeId) true)
    else
      let (node, s) := s.handed .nodeId
      let info : NodeInfo := { nodeId := some nodeId }
      let (value, s) := s.handed .value
      let (status, variant) := env.readValue
      let s := s.does (s.usesClient ++ [.use (.nodeId node), .use (.value value)])
      if opcUaStatusIndicatesDeadSession status then
        let s := (s.print ("Browse session dropped (".toList ++ texts.statusName status ++
          "), reconnecting".toList)).does [.release (.value value), .release (.nodeId node)]
        (info, (s.browseReconnect texts env.reconnect).2)
      else
        let info :=
          if status = .good then
            { info with
              value := some (uaVariantToString texts variant)
              type := some (variant.typeName.getD "Unknown".toList) }
          else { info with value := some [], type := some [] }
        let s := s.does (.release (.value value) :: s.usesClient ++ [.use (.nodeId node)])
        let info := { info with
          access := some (if env.readAccessLevel.1 = UaStatusCode.good then
            accessText env.readAccessLevel.2 else []) }
        let (text, s) := s.handed .text
        let s := s.does (s.usesClient ++ [.use (.nodeId node), .use (.text text),
          .release (.text text), .release (.nodeId node)])
        ({ info with
          description := some (if env.readDescription.1 = UaStatusCode.good then
            env.readDescription.2 else []) }, s)

end Browser

/-! ## Runs -/

/-- The calls of the editor. -/
inductive BrowseOp
  | connect (status : UaStatusCode) (endpoint : CStr)
  | disconnect
  | isAlive (env : BrowseEnv)
  | children (env : BrowseEnv) (nodeId : CStr)
  | nodeInfo (env : BrowseEnv) (nodeId : CStr)

/-- A call, without its answer. -/
def Browser.step (texts : BrowseTexts) (s : Browser) : BrowseOp → Browser
  | .connect status endpoint => (s.browseConnect texts status endpoint).2
  | .disconnect => s.browseDisconnect
  | .isAlive env => (s.browseIsSessionAlive env).2
  | .children env nodeId => (s.browseChildren texts env nodeId).2
  | .nodeInfo env nodeId => (s.browseNodeInfo texts env nodeId).2

/-! ## What is held -/

/-- Where open62541 put it. -/
def BrowseRef.address : BrowseRef → Nat
  | .client a | .nodeId a | .result a | .value a | .text a => a

/-- What is held between the calls. -/
def heldClient (client : Option Nat) : Finset BrowseRef := (client.map BrowseRef.client).toFinset

/-- Only the client is held for one. -/
@[simp] theorem mem_heldClient {client : Option Nat} {r : BrowseRef} :
    r ∈ heldClient client ↔ ∃ a, client = some a ∧ r = .client a := by
  rw [heldClient, Option.mem_toFinset, Option.mem_def, Option.map_eq_some_iff]
  simp only [eq_comm]

@[simp] theorem heldClient_none : heldClient none = ∅ := rfl

@[simp] theorem heldClient_some (a : Nat) : heldClient (some a) = {.client a} := rfl

/-- Whether it is the client. -/
def BrowseRef.isClient : BrowseRef → Bool
  | .client _ => true
  | _ => false

/-- All that was done is in order, and beside the client a call holds just what it says. -/
structure Browser.Holds (s : Browser) (locals : Finset BrowseRef) : Prop where
  holding : Holding BrowseRef.address s.events s.next (locals ∪ heldClient s.client)
  noClient : ∀ r ∈ locals, r.isClient = false

namespace Browser.Holds

variable {s : Browser} {locals : Finset BrowseRef} {r : BrowseRef}

/-- Nothing is held at first. -/
theorem start : ({} : Browser).Holds ∅ :=
  ⟨.start _ _, fun _ hr => absurd hr (Finset.notMem_empty _)⟩

/-- A message is none of what is held. -/
theorem print (h : s.Holds locals) (message : CStr) (error : Bool) :
    (s.print message error).Holds locals := ⟨h.holding, h.noClient⟩

/-- What a call holds may be used. -/
theorem use (h : s.Holds locals) (hr : r ∈ locals) : (s.does [.use r]).Holds locals :=
  ⟨h.holding.use (Finset.mem_union_left _ hr), h.noClient⟩

/-- What a call holds is not the client. -/
theorem not_mem (h : s.Holds (insert r locals)) (hr : r ∉ locals) :
    r ∉ locals ∪ heldClient s.client := by
  rw [Finset.mem_union]
  rintro (hmem | hmem)
  · exact hr hmem
  · obtain ⟨a, -, rfl⟩ := mem_heldClient.mp hmem
    exact absurd (h.noClient _ (Finset.mem_insert_self _ locals)) Bool.noConfusion

/-- What a call holds may be given back, and is gone. -/
theorem release (h : s.Holds (insert r locals)) (hr : r ∉ locals) :
    (s.does [.release r]).Holds locals := by
  have hreleased := h.holding.release (Finset.mem_union_left _ (Finset.mem_insert_self r locals))
  rw [Finset.insert_union, Finset.erase_insert (h.not_mem hr)] at hreleased
  exact ⟨hreleased, fun r' hr' => h.noClient r' (Finset.mem_insert_of_mem hr')⟩

/-- The client may be used, if there is one. -/
theorem usesClient (h : s.Holds locals) : (s.does s.usesClient).Holds locals := by
  refine ⟨?_, h.noClient⟩
  have hused := h.holding.uses fun r (hr : r ∈ s.client.toList.map .client) => by
    obtain ⟨a, ha, rfl⟩ := List.mem_map.mp hr
    exact Finset.mem_union_right _ (mem_heldClient.mpr ⟨a, Option.mem_toList.mp ha, rfl⟩)
  rw [List.map_map] at hused
  exact hused

/-- Something is stored for the call. -/
theorem handed (h : s.Holds locals) {ref : Nat → BrowseRef} (haddress : (ref s.next).address = s.next)
    (hclient : (ref s.next).isClient = false) :
    (s.handed ref).2.Holds (insert (ref s.next) locals) := by
  refine ⟨?_, fun r hr => ?_⟩
  · rw [Finset.insert_union]
    exact h.holding.acquire haddress
  · rcases Finset.mem_insert.mp hr with rfl | hr
    · exact hclient
    · exact h.noClient r hr

/-! ### The session -/

/-- Things that happen in two parts happen one after the other. -/
theorem does_append (s : Browser) (es es' : List (Event BrowseRef)) :
    s.does (es ++ es') = (s.does es).does es' := by
  simp only [Browser.does, List.append_assoc]

/-- The first of the things that happen, and then the others. -/
theorem does_cons (s : Browser) (e : Event BrowseRef) (es : List (Event BrowseRef)) :
    s.does (e :: es) = (s.does [e]).does es := does_append s [e] es

/-- The client is deleted, and what the call holds stays. -/
theorem browseDisconnect (h : s.Holds locals) : s.browseDisconnect.Holds locals := by
  rw [Browser.browseDisconnect]
  cases hclient : s.client with
  | none => exact h
  | some a =>
    have hnot : BrowseRef.client a ∉ locals := fun hmem =>
      absurd (h.noClient _ hmem) Bool.noConfusion
    have hholding := h.holding
    rw [hclient, heldClient_some, Finset.union_comm, ← Finset.insert_eq] at hholding
    have hgone := (hholding.use (Finset.mem_insert_self _ _)).release (Finset.mem_insert_self _ _)
    rw [Finset.erase_insert hnot, List.append_assoc] at hgone
    refine ⟨?_, h.noClient⟩
    show Holding _ (s.events ++ _) s.next (locals ∪ ∅)
    rw [Finset.union_empty]
    exact hgone

/-- After a disconnect there is no client, and if there was one, no endpoint. -/
theorem disconnected (s : Browser) :
    s.browseDisconnect.client = none ∧ (s.client ≠ none → s.browseDisconnect.endpoint = []) := by
  rw [Browser.browseDisconnect]
  cases hclient : s.client with
  | none => exact ⟨hclient, fun hne => absurd rfl hne⟩
  | some a => exact ⟨rfl, fun _ => rfl⟩

/-- A connect that succeeds leaves a client. -/
theorem browseConnect (h : s.Holds locals) (texts : BrowseTexts) (status : UaStatusCode)
    (endpoint : CStr) :
    (s.browseConnect texts status endpoint).2.Holds locals ∧
      ((s.browseConnect texts status endpoint).1 = true →
        (s.browseConnect texts status endpoint).2.client ≠ none) := by
  have hdown := h.browseDisconnect.holding
  have hnone := (disconnected s).1
  rw [Browser.browseConnect]
  generalize s.browseDisconnect = d at hdown hnone
  rw [hnone, heldClient_none, Finset.union_empty] at hdown
  have hnew : BrowseRef.client d.next ∉ locals := hdown.not_mem rfl
  have hused := (hdown.acquire (r := .client d.next) rfl).use (Finset.mem_insert_self _ _)
  simp only [Browser.handed, Browser.does]
  split
  · have hgone := hused.release (Finset.mem_insert_self _ _)
    rw [Finset.erase_insert hnew] at hgone
    refine ⟨⟨?_, h.noClient⟩, fun hfalse => absurd hfalse Bool.false_ne_true⟩
    show Holding _ (((d.events ++ _) ++ _) ++ _) (d.next + 1) (locals ∪ heldClient d.client)
    rw [hnone, heldClient_none, Finset.union_empty]
    exact hgone
  · rw [Finset.insert_eq, Finset.union_comm] at hused
    exact ⟨⟨hused, h.noClient⟩, fun _ hfalse => Option.some_ne_none _ hfalse⟩

/-- A reconnect keeps what the call holds; where it succeeds, there is a client. -/
theorem browseReconnect (h : s.Holds locals) (texts : BrowseTexts) (status : UaStatusCode) :
    (s.browseReconnect texts status).2.Holds locals ∧
      ((s.browseReconnect texts status).1 = true →
        (s.browseReconnect texts status).2.client ≠ none) := by
  rw [Browser.browseReconnect]
  split
  · exact ⟨h.print _ true, fun hfalse => absurd hfalse Bool.false_ne_true⟩
  · exact (h.print _ false).browseConnect texts status s.endpoint

/-- A session that is there has a client. -/
theorem ensureBrowseSession (h : s.Holds locals) (texts : BrowseTexts) (env : BrowseEnv) :
    (s.ensureBrowseSession texts env).2.Holds locals ∧
      ((s.ensureBrowseSession texts env).1 = true →
        (s.ensureBrowseSession texts env).2.client ≠ none) := by
  rw [Browser.ensureBrowseSession]
  split
  · exact ⟨h.print _ true, fun hfalse => absurd hfalse Bool.false_ne_true⟩
  rename_i hclient
  rw [Browser.browseIsSessionAlive]
  cases s.client.isSome && env.channelOpen && env.sessionActivated with
  | true => exact ⟨h.usesClient, fun _ => hclient⟩
  | false => exact (h.usesClient.print _ false).browseReconnect texts env.connect

/-! ### The calls -/

/-- The page a request is answered with. -/
theorem browse (h : s.Holds locals) {node : Nat} (hnode : .nodeId node ∈ locals) :
    (s.browse node).2.Holds (insert (.result (s.browse node).1) locals) := by
  rw [Browser.browse, does_append]
  exact (h.usesClient.use hnode).handed rfl rfl

/-- The last page is given back. -/
theorem listPages (h : s.Holds locals) {texts : BrowseTexts} {br : BrowseResult} {page : Nat}
    {answers : List BrowseResult} {locals' : Finset BrowseRef} (hpage : .result page ∉ locals')
    (hlocals : locals = insert (.result page) locals') (hlast : br.continuationPoint = []) :
    (Browser.listPages texts br page answers s).2.Holds locals' := by
  subst hlocals
  unfold Browser.listPages
  simp only [if_pos hlast]
  exact h.release hpage

/-- The node id is given back last. -/
theorem releaseNode {node : Nat} (h : s.Holds {.nodeId node}) :
    (s.does [.release (.nodeId node)]).Holds ∅ := by
  have hheld : s.Holds (insert (.nodeId node) ∅) := h
  exact hheld.release (Finset.notMem_empty _)

/-- The children of a node, if they are on one page. -/
theorem listChildren {node page : Nat}
    (h : s.Holds (insert (.result page) {.nodeId node})) (texts : BrowseTexts) {br : BrowseResult}
    (answers : List BrowseResult)
    (hone : br.statusCode = .good → br.continuationPoint = []) :
    (s.listChildren texts node br page answers).2.Holds ∅ := by
  have hpage : BrowseRef.result page ∉ ({.nodeId node} : Finset BrowseRef) := by
    rw [Finset.mem_singleton]
    exact BrowseRef.noConfusion
  rw [Browser.listChildren]
  split
  · show ((s.print _ true).does ([.release (.result page)] ++ [.release (.nodeId node)])).Holds ∅
    rw [does_append]
    exact ((h.print _ true).release hpage).releaseNode
  · rename_i hgood
    exact (h.listPages hpage rfl (hone (not_not.mp hgood))).releaseNode

end Browser.Holds

/-! ## What is read after it was given back -/

/-- A call only adds to what was done. -/
def Browser.Grows (s s' : Browser) : Prop := s.events <+: s'.events

namespace Browser.Grows

variable {s s' s'' : Browser}

theorem refl (s : Browser) : s.Grows s := List.prefix_refl s.events

/-- A trace that grows in two parts grows. -/
theorem trans (h : s.Grows s') (h' : s'.Grows s'') : s.Grows s'' := List.IsPrefix.trans h h'

theorem does (h : s.Grows s') (es : List (Event BrowseRef)) : s.Grows (s'.does es) :=
  h.trans (List.prefix_append s'.events es)

theorem print (h : s.Grows s') (message : CStr) (error : Bool) : s.Grows (s'.print message error) := h

theorem handed (h : s.Grows s') (ref : Nat → BrowseRef) : s.Grows (s'.handed ref).2 :=
  h.trans (List.prefix_append s'.events _)

theorem browseDisconnect (h : s.Grows s') : s.Grows s'.browseDisconnect := by
  rw [Browser.browseDisconnect]
  cases s'.client with
  | none => exact h
  | some a => exact h.trans (List.prefix_append s'.events _)

theorem browseConnect (h : s.Grows s') (texts : BrowseTexts) (status : UaStatusCode)
    (endpoint : CStr) : s.Grows (s'.browseConnect texts status endpoint).2 := by
  have hused := (h.browseDisconnect.handed .client).does
    [.use (.client (s'.browseDisconnect.handed .client).1)]
  rw [Browser.browseConnect]
  simp only
  split
  · exact (hused.print _ true).does _
  · exact hused

theorem browseReconnect (h : s.Grows s') (texts : BrowseTexts) (status : UaStatusCode) :
    s.Grows (s'.browseReconnect texts status).2 := by
  rw [Browser.browseReconnect]
  split
  · exact h
  · exact (h.print _ false).browseConnect texts status _

theorem ensureBrowseSession (h : s.Grows s') (texts : BrowseTexts) (env : BrowseEnv) :
    s.Grows (s'.ensureBrowseSession texts env).2 := by
  rw [Browser.ensureBrowseSession]
  split
  · exact h
  rw [Browser.browseIsSessionAlive]
  cases s'.client.isSome && env.channelOpen && env.sessionActivated with
  | true => exact h.does _
  | false => exact ((h.does _).print _ false).browseReconnect texts env.connect

theorem browse (h : s.Grows s') (node : Nat) : s.Grows (s'.browse node).2 := (h.does _).handed _

theorem listPages (h : s.Grows s') (texts : BrowseTexts) (br : BrowseResult) (page : Nat)
    (answers : List BrowseResult) : s.Grows (Browser.listPages texts br page answers s').2 := by
  induction answers generalizing s' br page with
  | nil =>
    unfold Browser.listPages
    simp only
    split
    · exact h.does _
    · exact (((h.does _).handed _).print _ true).does _
  | cons br' answers ih =>
    unfold Browser.listPages
    simp only
    split
    · exact h.does _
    split
    · exact (((h.does _).handed _).print _ true).does _
    · exact ih ((h.does _).handed _) br' _

theorem listChildren (h : s.Grows s') (texts : BrowseTexts) (node : Nat) (br : BrowseResult)
    (page : Nat) (answers : List BrowseResult) :
    s.Grows (s'.listChildren texts node br page answers).2 := by
  rw [Browser.listChildren]
  split
  · exact (h.print _ true).does _
  · exact (h.listPages texts br page answers).does _

theorem browseAgain (h : s.Grows s') (texts : BrowseTexts) (env : BrowseEnv) (node : Nat)
    (answers : List BrowseResult) : s.Grows (s'.browseAgain texts env node answers).2 := by
  have hconnect := h.browseReconnect texts env.reconnect
  rw [Browser.browseAgain]
  generalize s'.browseReconnect texts env.reconnect = r at hconnect
  obtain ⟨connected, d⟩ := r
  cases connected with
  | false => exact hconnect.does _
  | true => exact (hconnect.browse node).listChildren texts node _ _ _

theorem browseChildren (h : s.Grows s') (texts : BrowseTexts) (env : BrowseEnv) (nodeId : CStr) :
    s.Grows (s'.browseChildren texts env nodeId).2 := by
  have hensure := h.ensureBrowseSession texts env
  rw [Browser.browseChildren]
  generalize s'.ensureBrowseSession texts env = r at hensure
  obtain ⟨there, d⟩ := r
  cases there with
  | false => exact hensure
  | true =>
    simp only at hensure ⊢
    split
    · exact hensure
    have hbrowse := (hensure.handed .nodeId).browse d.next
    split
    · exact ((hbrowse.print _ false).does _).browseAgain texts env d.next _
    · exact hbrowse.listChildren texts d.next _ _ _

theorem browseNodeInfo (h : s.Grows s') (texts : BrowseTexts) (env : BrowseEnv) (nodeId : CStr) :
    s.Grows (s'.browseNodeInfo texts env nodeId).2 := by
  have hensure := h.ensureBrowseSession texts env
  rw [Browser.browseNodeInfo]
  generalize s'.ensureBrowseSession texts env = r at hensure
  obtain ⟨there, d⟩ := r
  cases there with
  | false => exact hensure
  | true =>
    simp only at hensure ⊢
    split
    · exact hensure
    have hread := ((hensure.handed .nodeId).handed .value).does
      ((((d.handed .nodeId).2.handed .value).2).usesClient ++
        [.use (.nodeId d.next), .use (.value (d.handed .nodeId).2.next)])
    split
    · exact ((hread.print _ false).does _).browseReconnect texts env.reconnect
    · exact (((hread.does _).handed .text).does _)

/-- Each of the editor's calls adds to the trace. -/
theorem step (texts : BrowseTexts) (s : Browser) (op : BrowseOp) : s.Grows (s.step texts op) := by
  cases op with
  | connect status endpoint => exact (refl s).browseConnect texts status endpoint
  | disconnect => exact (refl s).browseDisconnect
  | isAlive env => exact (refl s).does _
  | children env nodeId => exact (refl s).browseChildren texts env nodeId
  | nodeInfo env nodeId => exact (refl s).browseNodeInfo texts env nodeId

end Browser.Grows

/-! ## Errors -/

/-- The errors that were printed. -/
def Browser.errors (s : Browser) : List CStr :=
  s.printed.filterMap fun x => if x.2 then some x.1 else none

/-- What is done prints an error, or ends well. -/
def Browser.Fails (s s' : Browser) (failed : Bool) : Prop :=
  if failed then ∃ message, s'.errors = s.errors ++ [message] else s'.errors = s.errors

section
variable (texts : BrowseTexts) (s : Browser)

@[simp] theorem errors_does (es : List (Event BrowseRef)) : (s.does es).errors = s.errors := rfl

@[simp] theorem errors_handed (ref : Nat → BrowseRef) : (s.handed ref).2.errors = s.errors := rfl

@[simp] theorem errors_browse (node : Nat) : (s.browse node).2.errors = s.errors := rfl

@[simp] theorem errors_print_error (message : CStr) :
    (s.print message true).errors = s.errors ++ [message] := by
  rw [Browser.errors, Browser.print, List.filterMap_append]
  rfl

@[simp] theorem errors_print (message : CStr) : (s.print message).errors = s.errors := by
  rw [Browser.errors, Browser.print, List.filterMap_append]
  exact List.append_nil _

@[simp] theorem errors_browseDisconnect : s.browseDisconnect.errors = s.errors := by
  rw [Browser.browseDisconnect]
  cases s.client with
  | none => rfl
  | some a => exact errors_print _ _

/-- A connect prints one error if it fails, and none otherwise. -/
theorem browseConnect_fails (status : UaStatusCode) (endpoint : CStr) :
    s.Fails (s.browseConnect texts status endpoint).2
      (!(s.browseConnect texts status endpoint).1) := by
  rw [Browser.browseConnect]
  simp only
  split
  · refine ⟨"Browse connect failed with status code ".toList ++ texts.statusName status, ?_⟩
    refine (errors_print_error _ _).trans ?_
    rw [errors_does, errors_handed, errors_browseDisconnect]
  · refine (errors_print _ _).trans ?_
    show (s.browseDisconnect).errors = s.errors
    rw [errors_browseDisconnect]

/-- A reconnect prints one error if it fails, and none otherwise. -/
theorem browseReconnect_fails (status : UaStatusCode) :
    s.Fails (s.browseReconnect texts status).2 (!(s.browseReconnect texts status).1) := by
  rw [Browser.browseReconnect]
  split
  · exact ⟨_, errors_print_error _ _⟩
  · have hconnect := browseConnect_fails texts
      (s.print ("Reconnecting browse client to ".toList ++ s.endpoint)) status s.endpoint
    rw [Browser.Fails, errors_print] at hconnect
    exact hconnect

/-- The test of the session prints one error if there is none to be had. -/
theorem ensureBrowseSession_fails (env : BrowseEnv) :
    s.Fails (s.ensureBrowseSession texts env).2 (!(s.ensureBrowseSession texts env).1) := by
  rw [Browser.ensureBrowseSession]
  split
  · exact ⟨_, errors_print_error _ _⟩
  rw [Browser.browseIsSessionAlive]
  cases s.client.isSome && env.channelOpen && env.sessionActivated with
  | true => rfl
  | false =>
    have hconnect := browseReconnect_fails texts ((s.does s.usesClient).print
      "Browse session not active, attempting reconnect".toList) env.connect
    rw [Browser.Fails, errors_print] at hconnect
    exact hconnect

end

/-! ## Which page a call begins with -/

/-- A reconnect succeeds. -/
def Browser.connects (s : Browser) (status : UaStatusCode) : Bool :=
  s.endpoint ≠ [] && status = .good

/-- A call finds a session, or makes one. -/
def Browser.sessionThere (s : Browser) (env : BrowseEnv) : Bool :=
  s.client.isSome && (env.channelOpen && env.sessionActivated || s.connects env.connect)

/-- The answer `browse_children` takes for the first page, and those that follow. -/
def Browser.shown (s : Browser) (env : BrowseEnv) : Option (BrowseResult × List BrowseResult) :=
  if s.sessionThere env && env.parse = .good then
    let (br, answers) := Browser.nextAnswer env.answers
    if opcUaStatusIndicatesDeadSession br.statusCode then
      if s.connects env.reconnect then some (Browser.nextAnswer answers) else none
    else some (br, answers)
  else none

/-- The first page of a list says that it is the last. -/
def Browser.OnePage (s : Browser) : BrowseOp → Prop
  | .children env _ => ∀ shown ∈ s.shown env,
    shown.1.statusCode = .good → shown.1.continuationPoint = []
  | _ => True

/-- A text stays one when parts of it are replaced by texts. -/
theorem replaceAll_ne_nil {what forwhat : CStr} (hforwhat : forwhat ≠ []) (n : Nat) {text : CStr}
    (htext : text ≠ []) : replaceAll what forwhat n text ≠ [] := by
  cases n with
  | zero => exact htext
  | succ n =>
    cases text with
    | nil => exact absurd rfl htext
    | cons c text =>
      rw [replaceAll]
      split
      · exact fun hnil => hforwhat (List.append_eq_nil_iff.mp hnil).1
      · exact List.cons_ne_nil _ _

/-- The numeric gateway is empty only for an empty one. -/
theorem numericGateway_eq_nil_iff (gateway : CStr) : numericGateway gateway = [] ↔ gateway = [] := by
  constructor
  · intro hnil
    by_contra hne
    unfold numericGateway at hnil
    split at hnil
    · exact replaceAll_ne_nil (by decide) _ hne hnil
    · exact hne hnil
  · rintro rfl
    decide

section
variable (texts : BrowseTexts) (s : Browser)

/-- A connect succeeds on a good status, and then the endpoint is the one asked for. -/
theorem browseConnect_answer (status : UaStatusCode) (endpoint : CStr) :
    (s.browseConnect texts status endpoint).1 = decide (status = .good) ∧
      (status = .good →
        (s.browseConnect texts status endpoint).2.endpoint = numericGateway endpoint) := by
  rw [Browser.browseConnect]
  simp only
  by_cases hgood : status = .good
  · rw [if_neg (not_not.mpr hgood), decide_eq_true hgood]
    exact ⟨rfl, fun _ => rfl⟩
  · rw [if_pos hgood, decide_eq_false hgood]
    exact ⟨rfl, fun hyes => absurd hyes hgood⟩

/-- A reconnect keeps the endpoint, if it succeeds. -/
theorem browseReconnect_answer (status : UaStatusCode) :
    (s.browseReconnect texts status).1 = s.connects status ∧
      (s.connects status = true →
        ((s.browseReconnect texts status).2.endpoint = [] ↔ s.endpoint = [])) := by
  rw [Browser.browseReconnect, Browser.connects]
  by_cases hnone : s.endpoint = []
  · rw [if_pos hnone]
    simp only [hnone, ne_eq, not_true_eq_false, decide_false, Bool.false_and, Bool.false_eq_true,
      false_implies, and_self]
  · rw [if_neg hnone, decide_eq_true hnone, Bool.true_and]
    obtain ⟨hanswer, hendpoint⟩ := browseConnect_answer texts
      (s.print ("Reconnecting browse client to ".toList ++ s.endpoint)) status s.endpoint
    refine ⟨hanswer, fun hgood => ?_⟩
    rw [hendpoint (of_decide_eq_true hgood), numericGateway_eq_nil_iff]

/-- The test of the session answers whether there is one, and keeps the endpoint. -/
theorem ensureBrowseSession_answer (env : BrowseEnv) :
    (s.ensureBrowseSession texts env).1 = s.sessionThere env ∧
      (s.sessionThere env = true →
        ((s.ensureBrowseSession texts env).2.endpoint = [] ↔ s.endpoint = [])) := by
  rw [Browser.ensureBrowseSession, Browser.sessionThere]
  cases hclient : s.client with
  | none =>
    rw [if_pos rfl]
    exact ⟨rfl, fun hfalse => absurd hfalse Bool.false_ne_true⟩
  | some a =>
    rw [if_neg (Option.some_ne_none a), Browser.browseIsSessionAlive, hclient]
    simp only [Option.isSome_some, Bool.true_and]
    cases env.channelOpen && env.sessionActivated with
    | true => exact ⟨rfl, fun _ => Iff.rfl⟩
    | false =>
      rw [Bool.false_or]
      exact browseReconnect_answer texts _ env.connect

end

/-! ## Custody of a call -/

namespace Browser.Holds

variable {s : Browser} {texts : BrowseTexts} {env : BrowseEnv}

/-- A second request is sent, or there is no session to send it in. -/
theorem again_cases (s : Browser) (texts : BrowseTexts) (env : BrowseEnv) (node : Nat)
    (answers : List BrowseResult) :
    (s.connects env.reconnect = false ∧ (s.browseAgain texts env node answers).1 = [] ∧
      (s.Holds {.nodeId node} → (s.browseAgain texts env node answers).2.Holds ∅) ∧
      s.Fails (s.browseAgain texts env node answers).2 true) ∨
    ∃ page d, s.connects env.reconnect = true ∧
      s.browseAgain texts env node answers = Browser.listChildren texts d node
        (Browser.nextAnswer answers).1 page (Browser.nextAnswer answers).2 ∧
      (s.Holds {.nodeId node} → d.Holds {.result page, .nodeId node}) ∧ d.errors = s.errors := by
  have hheld := fun h : s.Holds {.nodeId node} => (h.browseReconnect texts env.reconnect).1
  obtain ⟨hanswer, -⟩ := browseReconnect_answer texts s env.reconnect
  have hfails := browseReconnect_fails texts s env.reconnect
  rw [Browser.browseAgain]
  generalize s.browseReconnect texts env.reconnect = r at *
  obtain ⟨connected, d⟩ := r
  simp only at hanswer hfails hheld
  subst hanswer
  cases hconnects : s.connects env.reconnect with
  | false =>
    rw [hconnects] at hfails
    exact .inl ⟨rfl, rfl, fun h => (hheld h).releaseNode, hfails⟩
  | true =>
    rw [hconnects] at hfails
    exact .inr ⟨_, _, rfl, rfl, fun h => (hheld h).browse (Finset.mem_singleton_self _), hfails⟩

/-- `browse_children` ends without a page and with an error, or comes to the page it lists. -/
theorem children_cases (s : Browser) (texts : BrowseTexts) (env : BrowseEnv) (nodeId : CStr) :
    (s.shown env = none ∧ (s.browseChildren texts env nodeId).1 = [] ∧
      (s.Holds ∅ → (s.browseChildren texts env nodeId).2.Holds ∅) ∧
      s.Fails (s.browseChildren texts env nodeId).2 true) ∨
    ∃ br answers node page d, s.shown env = some (br, answers) ∧
      s.browseChildren texts env nodeId = Browser.listChildren texts d node br page answers ∧
      (s.Holds ∅ → d.Holds {.result page, .nodeId node}) ∧ d.errors = s.errors := by
  have hheld := fun h : s.Holds ∅ => (h.ensureBrowseSession texts env).1
  obtain ⟨hanswer, hendpoint⟩ := ensureBrowseSession_answer texts s env
  have hfails := ensureBrowseSession_fails texts s env
  rw [Browser.browseChildren, Browser.shown]
  generalize s.ensureBrowseSession texts env = r at *
  obtain ⟨there, d⟩ := r
  simp only at hanswer hendpoint hfails hheld
  subst hanswer
  cases hthere : s.sessionThere env with
  | false =>
    rw [hthere] at hfails
    exact .inl ⟨rfl, rfl, hheld, hfails⟩
  | true =>
    rw [hthere] at hfails
    have hsame : d.errors = s.errors := hfails
    simp only
    by_cases hparse : env.parse = .good
    · rw [if_neg (not_not.mpr hparse), decide_eq_true hparse]
      have hparsed : s.Holds ∅ → (d.handed .nodeId).2.Holds (insert (.nodeId d.next) ∅) :=
        fun h => (hheld h).handed rfl rfl
      have hbrowse := fun h : s.Holds ∅ => (hparsed h).browse (Finset.mem_insert_self _ ∅)
      simp only [Bool.and_true, if_true]
      cases hdead : opcUaStatusIndicatesDeadSession (Browser.nextAnswer env.answers).1.statusCode with
      | false =>
        simp only [Bool.false_eq_true, if_false]
        exact .inr ⟨_, _, _, _, _, rfl, rfl, hbrowse, (errors_browse _ _).trans hsame⟩
      | true =>
        simp only [if_true]
        have hreleased := fun h : s.Holds ∅ => ((hbrowse h).print ("Browse session dropped (".toList ++
          texts.statusName (Browser.nextAnswer env.answers).1.statusCode ++
            "), reconnecting".toList) false).release (by
              rw [LawfulSingleton.insert_empty_eq, Finset.mem_singleton]
              exact BrowseRef.noConfusion)
        generalize hstate : Browser.does _ _ = e
        have hreleased : s.Holds ∅ → e.Holds {.nodeId d.next} := by
          rw [← hstate]
          exact hreleased
        have herrors : e.errors = s.errors := by
          rw [← hstate, errors_does, errors_print, errors_browse, errors_handed, hsame]
        have hconnects : s.connects env.reconnect = e.connects env.reconnect := by
          have hsame : e.endpoint = d.endpoint := by
            rw [← hstate]
            rfl
          rw [Browser.connects, Browser.connects, hsame, decide_eq_decide.mpr
            (not_congr (hendpoint hthere))]
        rw [hconnects]
        rcases again_cases e texts env d.next (Browser.nextAnswer env.answers).2 with
          ⟨hno, hnil, hheld, message, hmessage⟩ | ⟨page, d', hyes, heq, hheld, hsame'⟩
        · rw [hno, if_neg Bool.false_ne_true]
          exact .inl ⟨rfl, hnil, hheld ∘ hreleased, message, hmessage.trans (by rw [herrors])⟩
        · rw [hyes, if_pos rfl]
          exact .inr ⟨_, _, _, page, d', rfl, heq, hheld ∘ hreleased, hsame'.trans herrors⟩
    · rw [if_pos hparse]
      refine .inl ⟨by rw [decide_eq_false hparse]; rfl, rfl, fun h => (hheld h).print _ true,
        "Failed to parse node ID for browse: ".toList ++ nodeId, ?_⟩
      rw [errors_print_error, hsame]

/-- `browse_node_info` gives back what it reads. -/
theorem browseNodeInfo (h : s.Holds ∅) (texts : BrowseTexts) (env : BrowseEnv) (nodeId : CStr) :
    (s.browseNodeInfo texts env nodeId).2.Holds ∅ := by
  obtain ⟨hheld, -⟩ := h.ensureBrowseSession texts env
  rw [Browser.browseNodeInfo]
  generalize s.ensureBrowseSession texts env = r at *
  obtain ⟨there, d⟩ := r
  cases there with
  | false => exact hheld
  | true =>
    simp only at hheld ⊢
    split
    · exact hheld.print _ true
    have hnode : (d.handed .nodeId).2.Holds {.nodeId (d.handed .nodeId).1} := hheld.handed rfl rfl
    generalize d.handed .nodeId = n at *
    obtain ⟨node, d⟩ := n
    have hvalue : (d.handed .value).2.Holds {.value (d.handed .value).1, .nodeId node} :=
      hnode.handed rfl rfl
    have hnot : BrowseRef.value (d.handed .value).1 ∉ ({.nodeId node} : Finset BrowseRef) := by
      rw [Finset.mem_singleton]
      exact BrowseRef.noConfusion
    simp only
    generalize d.handed .value = v at *
    obtain ⟨value, d⟩ := v
    simp only at hvalue hnot ⊢
    have hread : (d.does (d.usesClient ++ [.use (.nodeId node), .use (.value value)])).Holds
        {.value value, .nodeId node} := by
      rw [does_append, does_cons]
      exact (hvalue.usesClient.use (Finset.mem_insert_of_mem (Finset.mem_singleton_self _))).use
        (Finset.mem_insert_self _ _)
    generalize d.does (d.usesClient ++ [.use (.nodeId node), .use (.value value)]) = d at *
    split
    · rw [does_cons]
      exact ((((hread.print _ false).release hnot).releaseNode).browseReconnect texts _).1
    · have hcleared : (d.does (.release (.value value) :: d.usesClient ++
          [.use (.nodeId node)])).Holds {.nodeId node} := by
        rw [List.cons_append, does_cons, does_append]
        exact ((hread.release hnot).usesClient).use (Finset.mem_singleton_self _)
      generalize d.does (.release (.value value) :: d.usesClient ++ [.use (.nodeId node)]) = d at *
      have htext : (d.handed .text).2.Holds {.text (d.handed .text).1, .nodeId node} :=
        hcleared.handed rfl rfl
      have hnot : BrowseRef.text (d.handed .text).1 ∉ ({.nodeId node} : Finset BrowseRef) := by
        rw [Finset.mem_singleton]
        exact BrowseRef.noConfusion
      generalize d.handed .text = t at *
      obtain ⟨text, d⟩ := t
      simp only at htext hnot ⊢
      rw [does_append, does_cons, does_cons, does_cons]
      exact ((((htext.usesClient.use (Finset.mem_insert_of_mem (Finset.mem_singleton_self _))).use
        (Finset.mem_insert_self _ _)).release hnot).releaseNode)

/-- What the next page is asked for with is in a page that was given back. -/
theorem listPages_broken {locals : Finset BrowseRef} {br : BrowseResult} {page : Nat}
    (h : s.Holds (insert (.result page) locals)) (hpage : .result page ∉ locals)
    (hmore : br.continuationPoint ≠ []) (texts : BrowseTexts) (answers : List BrowseResult) :
    Custody.custody ∅ (Browser.listPages texts br page answers s).2.events = none := by
  have hbroken : Custody.custody ∅
      (s.does (.release (.result page) :: s.usesClient ++ [.use (.result page)])).events = none := by
    have hnot := h.not_mem hpage
    rw [Browser.does, custody_append, h.holding.custody, Option.bind_some, List.cons_append, custody_cons,
      Event.act, if_pos (Finset.mem_union_left _ (Finset.mem_insert_self _ _)), Option.bind_some,
      Finset.insert_union, Finset.erase_insert hnot]
    refine custody_use_released hnot (fun hmem => ?_) []
    rw [Browser.usesClient] at hmem
    obtain ⟨a, -, heq⟩ := List.mem_map.mp hmem
    cases heq
  have hgrows : (s.does (.release (.result page) :: s.usesClient ++ [.use (.result page)])).Grows
      (Browser.listPages texts br page answers s).2 := by
    unfold Browser.listPages
    rw [if_neg hmore]
    generalize s.does (.release (.result page) :: s.usesClient ++ [.use (.result page)]) = d
    have hnext := (Browser.Grows.refl d).handed .result
    cases answers with
    | nil => exact (hnext.print _ true).does _
    | cons br' answers =>
      simp only
      split
      · exact (hnext.print _ true).does _
      · exact hnext.listPages texts br' _ answers
  obtain ⟨es, hes⟩ := hgrows
  rw [← hes]
  exact custody_append_none hbroken es

end Browser.Holds

/-- A call that lists one page leaves the client, and nothing else. -/
theorem holds_step (texts : BrowseTexts) {s : Browser} (h : s.Holds ∅) {op : BrowseOp}
    (hone : s.OnePage op) : (s.step texts op).Holds ∅ := by
  cases op with
  | connect status endpoint => exact (h.browseConnect texts status endpoint).1
  | disconnect => exact h.browseDisconnect
  | isAlive env => exact h.usesClient
  | nodeInfo env nodeId => exact h.browseNodeInfo texts env nodeId
  | children env nodeId =>
    rcases Browser.Holds.children_cases s texts env nodeId with
      ⟨-, -, hheld, -⟩ | ⟨br, answers, node, page, d, hshown, heq, hheld, -⟩
    · exact hheld h
    · rw [Browser.step, heq]
      exact (hheld h).listChildren texts answers (hone _ hshown)

/-- A call that goes on to a second page reads what it gave back. -/
theorem broken_step (texts : BrowseTexts) {s : Browser} (h : s.Holds ∅) {op : BrowseOp}
    (hmore : ¬ s.OnePage op) : custody ∅ (s.step texts op).events = none := by
  cases op with
  | connect _ _ | disconnect | isAlive _ | nodeInfo _ _ => exact absurd trivial hmore
  | children env nodeId =>
    simp only [Browser.OnePage, not_forall] at hmore
    obtain ⟨shown, hmem, hgood, hpoint⟩ := hmore
    rcases Browser.Holds.children_cases s texts env nodeId with
      ⟨hnone, -⟩ | ⟨br, answers, node, page, d, hshown, heq, hheld, -⟩
    · rw [hnone] at hmem
      cases hmem
    · obtain rfl := Option.some.inj (hshown.symm.trans hmem)
      have hpage : BrowseRef.result page ∉ ({.nodeId node} : Finset BrowseRef) := by
        rw [Finset.mem_singleton]
        exact BrowseRef.noConfusion
      rw [Browser.step, heq, Browser.listChildren, if_neg (not_not.mpr hgood)]
      exact custody_append_none ((hheld h).listPages_broken hpage hpoint texts answers) _

/-- In every run of the editor's calls, all that open62541 hands out is used while it is held and
given back once, and between the calls the client is all that is held, exactly as long as every list
of children fits on a page. -/
theorem browse_custody (texts : BrowseTexts) (ops : List BrowseOp) :
    Along (Browser.step texts) (fun s => custody ∅ s.events = some (heldClient s.client)) {} ops ↔
      Meets (Browser.step texts) Browser.OnePage {} ops := by
  refine along_iff_meets (Browser.step texts) (B := fun _ => True) (J := fun s => s.Holds ∅)
    (D := fun _ _ => True) (fun _ _ _ _ => trivial) (fun s op _ h _ hone => holds_step texts h hone)
    (fun s _ h => ?_) (fun s op _ h _ hmore hheld => ?_) trivial .start
    (meets_of_forall _ (fun _ _ => trivial) _ _)
  · rw [h.holding.custody, Finset.empty_union]
  · rw [broken_step texts h hmore] at hheld
    cases hheld

/-! ## What a call lists -/

/-- Pages that make up a list: each says that there are more, but for the last. -/
inductive Listing : List BrowseResult → Prop
  | last (br : BrowseResult) (good : br.statusCode = .good) (done : br.continuationPoint = []) :
    Listing [br]
  | more (br : BrowseResult) (rest : List BrowseResult) (good : br.statusCode = .good)
    (goes : br.continuationPoint ≠ []) (listing : Listing rest) : Listing (br :: rest)

/-- Among the answers the server has a whole list first. -/
def Offers (answers pages : List BrowseResult) : Prop := Listing pages ∧ pages <+: answers

/-- The entries of the pages, in their order. -/
def entriesOf (pages : List BrowseResult) : List Browser.Entry :=
  (pages.flatMap BrowseResult.references).map Browser.entryOf

/-- The first page of a list. -/
theorem Offers.first {br : BrowseResult} {answers pages : List BrowseResult}
    (h : Offers (br :: answers) pages) : br.statusCode = .good ∧
      (br.continuationPoint = [] ∧ pages = [br] ∨
        br.continuationPoint ≠ [] ∧ ∃ rest, pages = br :: rest ∧ Offers answers rest) := by
  obtain ⟨hlisting, hprefix⟩ := h
  cases hlisting with
  | last br' good done =>
    obtain ⟨rfl, -⟩ := List.cons_prefix_cons.mp hprefix
    exact ⟨good, .inl ⟨done, rfl⟩⟩
  | more br' rest good goes listing =>
    obtain ⟨rfl, hrest⟩ := List.cons_prefix_cons.mp hprefix
    exact ⟨good, .inr ⟨goes, rest, rfl, listing, hrest⟩⟩

/-- The loop lists the pages the server offers, or prints an error. -/
theorem listPages_lists (texts : BrowseTexts) (br : BrowseResult) (page : Nat)
    (answers : List BrowseResult) (s : Browser) (hgood : br.statusCode = .good) :
    (∃ pages, Offers (br :: answers) pages ∧
      (Browser.listPages texts br page answers s).1 = entriesOf pages ∧
      s.Fails (Browser.listPages texts br page answers s).2 false) ∨
    (∀ pages, ¬ Offers (br :: answers) pages) ∧
      s.Fails (Browser.listPages texts br page answers s).2 true := by
  have hlast : ∀ {br : BrowseResult} {answers : List BrowseResult}, br.statusCode = .good →
      br.continuationPoint = [] → Offers (br :: answers) [br] := fun hgood hdone =>
    ⟨.last _ hgood hdone, List.prefix_cons_inj _ |>.mpr List.nil_prefix⟩
  have hentries : ∀ br : BrowseResult, br.references.map Browser.entryOf = entriesOf [br] := by
    intro br
    rw [entriesOf, List.flatMap_singleton]
  induction answers generalizing br page s with
  | nil =>
    unfold Browser.listPages
    by_cases hdone : br.continuationPoint = []
    · rw [if_pos hdone]
      exact .inl ⟨[br], hlast hgood hdone, hentries br, rfl⟩
    · rw [if_neg hdone]
      refine .inr ⟨fun pages hoffers => ?_, _, errors_print_error _ _⟩
      rcases hoffers.first.2 with ⟨hnil, -⟩ | ⟨-, rest, -, hlisting, hprefix⟩
      · exact hdone hnil
      · rw [List.prefix_nil.mp hprefix] at hlisting
        cases hlisting
  | cons br' answers ih =>
    unfold Browser.listPages
    by_cases hdone : br.continuationPoint = []
    · rw [if_pos hdone]
      exact .inl ⟨[br], hlast hgood hdone, hentries br, rfl⟩
    rw [if_neg hdone]
    simp only
    -- what follows is a whole list if and only if the list goes on with one
    have hmore : ∀ {pages}, Offers (br :: br' :: answers) pages →
        ∃ rest, pages = br :: rest ∧ Offers (br' :: answers) rest := fun hoffers =>
      (hoffers.first.2.resolve_left fun h => hdone h.1).2
    by_cases hgood' : br'.statusCode = .good
    · rw [if_neg (not_not.mpr hgood')]
      rcases ih br' _ _ hgood' with ⟨pages, ⟨hlisting, hprefix⟩, hlists, hfails⟩ | ⟨hnone, hfails⟩
      · refine .inl ⟨br :: pages, ⟨.more br pages hgood hdone hlisting, ?_⟩, ?_, hfails⟩
        · exact (List.prefix_cons_inj br).mpr hprefix
        · rw [hlists, entriesOf, entriesOf, List.flatMap_cons, List.map_append]
      · refine .inr ⟨fun pages hoffers => ?_, hfails⟩
        obtain ⟨rest, -, hrest⟩ := hmore hoffers
        exact hnone rest hrest
    · rw [if_pos hgood']
      refine .inr ⟨fun pages hoffers => ?_, _, errors_print_error _ _⟩
      obtain ⟨rest, -, hrest⟩ := hmore hoffers
      exact hgood' hrest.first.1

/-- Whatever was browsed before, and however often the session is found dead: a list of children is
whole if no error was printed in the call, and one was printed if it is not. -/
theorem children_whole (texts : BrowseTexts) (s : Browser) (env : BrowseEnv) (nodeId : CStr) :
    (∃ shown ∈ s.shown env, ∃ pages, Offers (shown.1 :: shown.2) pages ∧
      (s.browseChildren texts env nodeId).1 = entriesOf pages ∧
      (s.browseChildren texts env nodeId).2.errors = s.errors) ∨
    (∀ shown ∈ s.shown env, ∀ pages, ¬ Offers (shown.1 :: shown.2) pages) ∧
      ∃ message, (s.browseChildren texts env nodeId).2.errors = s.errors ++ [message] := by
  rcases Browser.Holds.children_cases s texts env nodeId with
    ⟨hnone, -, -, hfails⟩ | ⟨br, answers, node, page, d, hshown, heq, -, hsame⟩
  · refine .inr ⟨fun shown hmem => ?_, hfails⟩
    rw [hnone] at hmem
    cases hmem
  rw [heq, hshown, Browser.listChildren]
  by_cases hgood : br.statusCode = .good
  · rw [if_neg (not_not.mpr hgood)]
    rcases listPages_lists texts br page answers d hgood with
      ⟨pages, hoffers, hentries, hfails⟩ | ⟨hnone, message, hfails⟩
    · exact .inl ⟨_, rfl, pages, hoffers, hentries, hfails.trans hsame⟩
    · refine .inr ⟨fun shown hmem pages => ?_, message, hfails.trans (by rw [hsame])⟩
      obtain rfl := Option.some.inj hmem
      exact hnone pages
  · rw [if_pos hgood]
    refine .inr ⟨fun shown hmem pages hoffers => ?_,
      "Browse failed: ".toList ++ texts.statusName br.statusCode, ?_⟩
    · obtain rfl := Option.some.inj hmem
      exact hgood hoffers.first.1
    · rw [errors_does, errors_print_error, hsame]

end OipComms.Backend
