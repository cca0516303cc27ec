import OipComms.Lib.Run
import OipComms.Backend.Mqtt

/-!
# An MQTT session

The work thread polls an MQTT group, Paho's thread delivers messages, and the main thread registers
and reads tags. `process_mqtt_tag_group` is taken apart at the points where the others can come in
between: it finds the client disconnected, forgets what was received, makes a client, and goes
through the tags. A callback, a registration and a read hold the map of the tags from beginning to
end. Where nothing comes in between, the parts are `process_mqtt_tag_group` again (`poll_alone`).

`reads_current_session` says that a read gives what was received since the last poll that found the
client disconnected, and never what came before it.
-/

namespace OipComms.Backend

open Comms (TagType)
open Run Sweep

variable {V : Type}

/-! ## The threads -/

/-- Where the work thread stands: outside of `process_mqtt_tag_group`, in it having found the client
disconnected, before `init_mqtt_client`, or in the loop over the tags, behind the last it took. -/
inductive PollPoint
  | idle
  | lost
  | opening
  | looping (last : Option CStr)
  deriving DecidableEq

/-- A group, whether Paho has its client connected, where the work thread stands, and the
subscriptions Paho took, each with the client it was made on. -/
structure MqttSession (V : Type) where
  visit : Visit V
  connected : Bool := false
  point : PollPoint := .idle
  subscriptions : List (Nat × CStr) := []

/-- What can happen next: a message arrives, the connection is lost, a tag is registered, or the work
thread goes on, with what Paho answers it. -/
inductive MqttEvent
  | arrived (topic : CStr) (payload : List UInt8)
  | lost
  | registerTag (tagName : CStr) (ty : TagType)
  | poll (env : MqttEnv)

/-- The client of a group. -/
def TagGroup.mqttClient (g : TagGroup V) : Option Nat := g.mqttImpl.bind MqttTagGroupImpl.client

/-- The tag the loop takes behind the last one, in the order of the map. -/
def nextTag (last : Option CStr) (tags : Std.ExtTreeMap CStr MqttTagEntry) :
    Option (CStr × MqttTagEntry) :=
  tags.toList.find? fun x => last.all fun k => compare k x.1 = .lt

/-- What a tag's turn leaves of the group. -/
def TagGroup.mqttTurn (g : TagGroup V) (tagName : CStr) (r : Swept MqttTagEntry (Effect V)) :
    TagGroup V :=
  { g with
    mqttImpl := g.mqttImpl.map fun impl => { impl with tags := impl.tags.insert tagName r.entry }
    initCount := g.initCount + r.out.counted
    hasError := g.hasError || r.out.failed }

/-- The next part of `process_mqtt_tag_group`; a group with an error is not polled. -/
def MqttSession.poll (env : MqttEnv) (s : MqttSession V) : MqttSession V :=
  match s.point with
  | .idle =>
    if s.visit.group.hasError then s
    else if s.visit.group.mqttClientConnected s.connected then { s with point := .looping none }
    else { s with point := .lost }
  | .lost =>
    { s with visit := s.visit.withGroup s.visit.group.mqttDisconnected, point := .opening }
  | .opening =>
    let (ok, visit) := s.visit.initMqttClient env
    { s with visit := visit, connected := ok, point := if ok then .looping none else .idle }
  | .looping last =>
    match nextTag last s.visit.group.mqttTags with
    | none => { s with point := .idle }
    | some (tagName, tag) =>
      let r : Swept MqttTagEntry (Effect V) := pollMqttTag env tagName tag
      { s with
        visit := s.visit.withGroup (s.visit.group.mqttTurn tagName r)
        subscriptions :=
          if !tag.subscribed && r.entry.subscribed then
            (s.visit.group.mqttClient.toList.map fun client => (client, tagName)) ++ s.subscriptions
          else s.subscriptions
        point := if r.goes then .looping (some tagName) else .idle }

/-- One thing that happens. Paho delivers a message only while the client is connected. -/
def MqttSession.step (s : MqttSession V) : MqttEvent → MqttSession V
  | .arrived topic payload =>
    if s.visit.group.mqttClientConnected s.connected then
      { s with visit := s.visit.withGroup (s.visit.group.mqttMessageArrived topic payload) }
    else s
  | .lost => { s with connected := false }
  | .registerTag tagName ty =>
    if tagName = [] || s.visit.group.has tagName then s
    else { s with visit := (s.visit.registerTag tagName ty).2 }
  | .poll env => s.poll env

/-- `read_*` of a type of `size` bytes, on an MQTT group: the bytes of what it returns. -/
def TagGroup.mqttRead (enableComms simRunning : Bool) (g : TagGroup V) (tagName : CStr)
    (size : Nat) : List UInt8 :=
  if enableComms && simRunning && g.has tagName then
    if g.hasError then List.replicate size 0
    else
      match g.mqttImpl with
      | none => List.replicate size 0
      | some impl =>
        match impl.tags[tagName]? with
        | none => List.replicate size 0
        | some tag =>
          if !tag.hasData || decide (tag.value.length < size) then List.replicate size 0
          else tag.value.take size
  else List.replicate size 0

/-! ## The history -/

/-- What a session remembers, the latest first: the messages that arrived, and the tags that came
new. -/
inductive Happening
  | message (topic : CStr) (payload : List UInt8)
  | registered (tagName : CStr)

/-- The work thread is about to find the client disconnected. -/
def MqttSession.findsLost (s : MqttSession V) : Bool :=
  decide (s.point = .idle) && !s.visit.group.hasError &&
    !s.visit.group.mqttClientConnected s.connected

/-- What has happened since the last poll that found the client disconnected, if there was one. -/
def happened (s : MqttSession V) (e : MqttEvent) (h : Option (List Happening)) :
    Option (List Happening) :=
  match e with
  | .arrived topic payload =>
    if s.visit.group.mqttClientConnected s.connected then h.map (.message topic payload :: ·) else h
  | .lost => h
  | .registerTag tagName ty =>
    if !s.visit.group.has tagName && (s.step (.registerTag tagName ty)).visit.group.has tagName then
      h.map (.registered tagName :: ·)
    else h
  | .poll _ => if s.findsLost then some [] else h

/-- The last message on a topic. -/
def lastArrived (topic : CStr) : List Happening → Option (List UInt8)
  | [] => none
  | .message t payload :: h => if t = topic then some payload else lastArrived topic h
  | .registered _ :: h => lastArrived topic h

/-- The last message on a topic since its tag was registered. -/
def lastHeard (topic : CStr) : List Happening → Option (List UInt8)
  | [] => none
  | .message t payload :: h => if t = topic then some payload else lastHeard topic h
  | .registered t :: h => if t = topic then none else lastHeard topic h

/-- The leading bytes of a message; zeros where there is none, or it is too short. -/
def leading (size : Nat) : Option (List UInt8) → List UInt8
  | none => List.replicate size 0
  | some payload => if payload.length < size then List.replicate size 0 else payload.take size

/-- After a poll that found the client disconnected, and until the next has found it so, every tag
reads as the message `last` names; and what is marked as subscribed is, on the client there is. -/
structure Serves (last : CStr → List Happening → Option (List UInt8))
    (x : MqttSession V × Option (List Happening)) : Prop where
  reads : ∀ h, x.2 = some h → x.1.point ≠ .lost → x.1.visit.group.hasError = false →
    ∀ tagName, x.1.visit.group.has tagName = true → ∀ size,
      x.1.visit.group.mqttRead true true tagName size = leading size (last tagName h)
  subscribed : ∀ tagName tag, x.1.visit.group.mqttTags[tagName]? = some tag →
    tag.subscribed = true →
    ∃ client, x.1.visit.group.mqttClient = some client ∧ (client, tagName) ∈ x.1.subscriptions

/-! ## What the parts do to the tags -/

/-- What a tag has to show. -/
def MqttTagEntry.data (tag : MqttTagEntry) : Option (List UInt8) :=
  if tag.hasData then some tag.value else none

/-- An MQTT group has the tags of its object. -/
theorem has_eq_contains {g : TagGroup V} (hprotocol : g.protocol = .mqtt) (tagName : CStr) :
    g.has tagName = g.mqttTags.contains tagName := by
  rw [TagGroup.has, hprotocol, TagGroup.mqttTags]
  cases g.mqttImpl with
  | none => rfl
  | some impl => rfl

/-- A group that has other tags now. -/
structure TagGroup.Retagged (g : TagGroup V) (tags : Std.ExtTreeMap CStr MqttTagEntry)
    (g' : TagGroup V) : Prop where
  tags : g'.mqttTags = tags
  client : g'.mqttClient = g.mqttClient
  protocol : g'.protocol = g.protocol

/-- A message is kept with its tag, and is lost without one. -/
theorem mqttMessageArrived_tags (g : TagGroup V) (topic : CStr) (payload : List UInt8) :
    (g.mqttTags[topic]? = none ∧ g.mqttMessageArrived topic payload = g) ∨
    ∃ tag, g.mqttTags[topic]? = some tag ∧
      g.Retagged (g.mqttTags.insert topic { tag with value := payload, hasData := true })
        (g.mqttMessageArrived topic payload) := by
  cases himpl : g.mqttImpl with
  | none =>
    refine .inl ⟨?_, ?_⟩
    · rw [TagGroup.mqttTags, himpl]
      exact Std.ExtTreeMap.getElem?_empty
    · simp only [TagGroup.mqttMessageArrived, himpl]
  | some impl =>
    have htags : g.mqttTags = impl.tags := by
      rw [TagGroup.mqttTags, himpl]
      rfl
    have hclient : g.mqttClient = impl.client := by
      rw [TagGroup.mqttClient, himpl]
      rfl
    simp only [TagGroup.mqttMessageArrived, himpl, htags]
    cases htag : impl.tags[topic]? with
    | none => exact .inl ⟨rfl, rfl⟩
    | some tag => exact .inr ⟨tag, rfl, rfl, hclient.symm, rfl⟩

/-- The object of a group is the one it had, or a new one without client. -/
theorem Visit.mqtt_client (v : Visit V) :
    v.mqtt.1.client = v.group.mqttClient ∧ v.mqtt.2.group.protocol = v.group.protocol := by
  rcases v.mqtt_cases with ⟨hsome, hsame⟩ | ⟨hnone, hnew⟩
  · rw [hsame, TagGroup.mqttClient, hsome]
    exact ⟨rfl, rfl⟩
  · rw [hnew, TagGroup.mqttClient, hnone]
    exact ⟨rfl, rfl⟩

/-- A registration is refused, or the tag comes new. -/
theorem registerTag_mqtt {v : Visit V} (hprotocol : v.group.protocol = .mqtt) (tagName : CStr)
    (ty : TagType) :
    (v.registerTag tagName ty).2.group = v.group ∨
    v.group.Retagged (v.group.mqttTags.insert tagName {}) (v.registerTag tagName ty).2.group := by
  obtain ⟨hclient, hsame⟩ := v.mqtt_client
  simp only [Visit.registerTag, hprotocol]
  split
  · exact .inl rfl
  · exact .inr ⟨by rw [← v.mqtt_tags]; rfl, hclient, hsame⟩

/-- Nothing that was received is shown any more, and nothing is subscribed. -/
theorem mqttDisconnected_tags (g : TagGroup V) :
    g.Retagged (g.mqttTags.map fun _ tag => { tag with subscribed := false, hasData := false })
      g.mqttDisconnected := by
  unfold TagGroup.mqttDisconnected
  cases himpl : g.mqttImpl with
  | none =>
    refine ⟨?_, rfl, rfl⟩
    rw [TagGroup.mqttTags, himpl]
    rfl
  | some impl =>
    have htags : g.mqttTags = impl.tags := by
      rw [TagGroup.mqttTags, himpl]
      rfl
    have hclient : g.mqttClient = impl.client := by
      rw [TagGroup.mqttClient, himpl]
      rfl
    exact ⟨by rw [htags]; rfl, hclient.symm, rfl⟩

/-- `init_mqtt_client` leaves what was received, and no subscription of the client before. -/
theorem initMqttClient_tags (env : MqttEnv) (v : Visit V) :
    (v.initMqttClient env).2.group.mqttTags =
      v.group.mqttTags.map (fun _ tag => { tag with subscribed := false }) ∧
    (v.initMqttClient env).1 = (v.initMqttClient env).2.group.mqttClient.isSome ∧
    (v.initMqttClient env).2.group.protocol = v.group.protocol := by
  refine ⟨?_, rfl, v.mqtt_client.2⟩
  rw [Visit.initMqttClient_group, ← v.mqtt_tags]
  exact connect_tags env v.mqtt.2.group v.mqtt.2.next v.mqtt.1

/-- A turn of the poll stores its tag. -/
theorem mqttTurn_tags {g : TagGroup V} {client : Nat} (hclient : g.mqttClient = some client)
    (tagName : CStr) (r : Swept MqttTagEntry (Effect V)) :
    g.Retagged (g.mqttTags.insert tagName r.entry) (g.mqttTurn tagName r) := by
  obtain ⟨impl, himpl, -⟩ := Option.bind_eq_some_iff.mp hclient
  refine ⟨?_, ?_, rfl⟩
  · rw [TagGroup.mqttTags, TagGroup.mqttTags, TagGroup.mqttTurn, himpl]
    rfl
  · rw [TagGroup.mqttClient, TagGroup.mqttClient, TagGroup.mqttTurn, himpl]
    rfl

/-- The tag whose turn it is, is there. -/
theorem mem_of_nextTag {last : Option CStr} {tags : Std.ExtTreeMap CStr MqttTagEntry}
    {tagName : CStr} {tag : MqttTagEntry} (h : nextTag last tags = some (tagName, tag)) :
    tags[tagName]? = some tag :=
  Std.ExtTreeMap.mem_toList_iff_getElem?_eq_some.mp (List.mem_of_find?_eq_some h)

/-- The next turn is that of the first tag behind those that had theirs. -/
theorem nextTag_behind {g : TagGroup V} {impl : MqttTagGroupImpl} (himpl : g.mqttImpl = some impl)
    {front rest : List (CStr × MqttTagEntry)} (htags : impl.tags.toList = front ++ rest) :
    nextTag (front.getLast?.map Prod.fst) g.mqttTags = rest.head? := by
  rw [TagGroup.mqttTags, himpl]
  exact find?_behind htags

/-- A tag's turn leaves what was received. -/
theorem pollMqttTag_data (env : MqttEnv) (tagName : CStr) (tag : MqttTagEntry) :
    (pollMqttTag env tagName tag : Swept MqttTagEntry (Effect V)).entry.data = tag.data := by
  unfold pollMqttTag
  split
  · rfl
  split
  · rfl
  · rfl

/-! ## A poll with nothing in between -/

/-- What a tag's turn does to the group beside its tags. -/
theorem mqttTurn_absorb (env : MqttEnv) (v : Visit V) (tagName : CStr) (tag : MqttTagEntry)
    (impl : Option MqttTagGroupImpl) :
    v.withGroup { v.group.mqttTurn tagName (pollMqttTag env tagName tag) with mqttImpl := impl } =
      (v.withGroup { v.group with mqttImpl := impl }).absorb [(pollMqttTag env tagName tag).out] := by
  simp only [Visit.withGroup, Visit.absorb, TagGroup.mqttTurn, List.map_cons, List.map_nil,
    List.sum_cons, List.sum_nil, List.any_cons, List.any_nil, List.flatMap_cons, List.flatMap_nil,
    (pollMqttTag_turn env tagName tag).calls, pollMqttTag_stops env tagName tag, Bool.or_false,
    Nat.add_zero, List.append_nil]

/-- The loop takes a tag. -/
theorem poll_turn (env : MqttEnv) {x : CStr × MqttTagEntry} {rest : List (CStr × MqttTagEntry)}
    {s : MqttSession V} {impl : MqttTagGroupImpl} {front : List (CStr × MqttTagEntry)}
    (hpoint : s.point = .looping (front.getLast?.map Prod.fst))
    (himpl : s.visit.group.mqttImpl = some impl) (htags : impl.tags.toList = front ++ x :: rest) :
    (s.step (.poll env)).visit =
        s.visit.withGroup (s.visit.group.mqttTurn x.1 (pollMqttTag env x.1 x.2)) ∧
      (s.step (.poll env)).point =
        (if (pollMqttTag env x.1 x.2 : Swept _ (Effect V)).goes then .looping (some x.1) else .idle) ∧
      (s.visit.group.mqttTurn x.1 (pollMqttTag env x.1 x.2)).mqttImpl =
        some { impl with
          tags := impl.tags.insert x.1 (pollMqttTag env x.1 x.2 : Swept _ (Effect V)).entry } := by
  have hnext := nextTag_behind himpl htags
  refine ⟨?_, ?_, ?_⟩
  · simp only [MqttSession.step, MqttSession.poll, hpoint, hnext, List.head?_cons]
  · simp only [MqttSession.step, MqttSession.poll, hpoint, hnext, List.head?_cons]
  · rw [TagGroup.mqttTurn, himpl, Option.map_some]

/-- The loop goes on behind the tags it took, and comes to what the sweep of the others comes to. -/
theorem loop_alone (env : MqttEnv) {rest : List (CStr × MqttTagEntry)} {s : MqttSession V}
    {impl : MqttTagGroupImpl} {front : List (CStr × MqttTagEntry)}
    (hpoint : s.point = .looping (front.getLast?.map Prod.fst))
    (himpl : s.visit.group.mqttImpl = some impl) (htags : impl.tags.toList = front ++ rest) :
    ∃ n, (run MqttSession.step s (List.replicate n (.poll env))).point = .idle ∧
      (run MqttSession.step s (List.replicate n (.poll env))).visit =
        (s.visit.withGroup { s.visit.group with
          mqttImpl := some { impl with
            tags := impl.tags.map (turned (pollMqttTag (V := V) env) rest) } }).absorb
          ((visited (pollMqttTag (V := V) env) rest).map fun x => (pollMqttTag env x.1 x.2).out) := by
  induction rest generalizing s impl front with
  | nil =>
    have hnext := nextTag_behind himpl htags
    have hstep : s.step (.poll env) = { s with point := .idle } := by
      simp only [MqttSession.step, MqttSession.poll, hpoint, hnext, List.head?_nil]
    refine ⟨1, ?_, ?_⟩
    · rw [List.replicate_one, run_cons, run_nil, hstep]
    · rw [List.replicate_one, run_cons, run_nil, hstep, map_turned_nil, ← himpl, visited, List.map_nil,
        Visit.absorb_nil]
      rfl
  | cons x rest ih =>
    have hget : impl.tags[x.1]? = some x.2 := by
      rw [← Std.ExtTreeMap.mem_toList_iff_getElem?_eq_some, htags]
      exact List.mem_append_right front List.mem_cons_self
    have hmap := map_turned_cons (pollMqttTag (V := V) env) hget (not_mem_of_split htags)
    obtain ⟨hvisit, hnow, hturned⟩ := poll_turn env hpoint himpl htags
    rw [hmap, visited, List.map_cons, Visit.absorb_cons, ← mqttTurn_absorb]
    cases hgoes : (pollMqttTag env x.1 x.2 : Swept _ (Effect V)).goes with
    | false =>
      rw [hgoes, if_neg Bool.false_ne_true] at hnow
      refine ⟨1, hnow, ?_⟩
      rw [if_neg Bool.false_ne_true, if_neg Bool.false_ne_true, ← hturned, List.map_nil,
        Visit.absorb_nil]
      exact hvisit
    | true =>
      rw [hgoes, if_pos rfl] at hnow
      rw [if_pos rfl, if_pos rfl]
      -- the tag just taken is the last of those in front
      have htags' := toList_insert_of_split htags (pollMqttTag env x.1 x.2 : Swept _ (Effect V)).entry
      rw [List.append_cons] at htags'
      have himpl' := (congrArg (fun v : Visit V => v.group.mqttImpl) hvisit).trans hturned
      obtain ⟨n, hidle, hend⟩ := ih (by rw [hnow, List.getLast?_concat]; rfl) himpl' htags'
      refine ⟨n + 1, hidle, ?_⟩
      rw [List.replicate_succ, run_cons, hend, hvisit]
      rfl

/-- The whole loop is the sweep. -/
theorem tags_alone (env : MqttEnv) {s : MqttSession V} {impl : MqttTagGroupImpl}
    (hpoint : s.point = .looping none) (himpl : s.visit.group.mqttImpl = some impl) :
    ∃ n, (run MqttSession.step s (List.replicate n (.poll env))).point = .idle ∧
      (run MqttSession.step s (List.replicate n (.poll env))).visit =
        s.visit.pollMqttTags env impl := by
  have hstart : s.point = .looping ((@List.nil (CStr × MqttTagEntry)).getLast?.map Prod.fst) := hpoint
  exact loop_alone env hstart himpl rfl

/-- How a poll begins. -/
theorem poll_begins (env : MqttEnv) {s : MqttSession V} (hpoint : s.point = .idle)
    (herror : s.visit.group.hasError = false) :
    s.step (.poll env) =
      { s with point :=
          if s.visit.group.mqttClientConnected s.connected then .looping none else .lost } := by
  simp only [MqttSession.step, MqttSession.poll, hpoint, herror, Bool.false_eq_true, if_false]
  split
  · rfl
  · rfl

/-- A poll that finds the client disconnected, up to the loop over the tags. -/
theorem reconnects_alone {env : MqttEnv} {s : MqttSession V} (hpoint : s.point = .idle)
    (herror : s.visit.group.hasError = false)
    (hlost : s.visit.group.mqttClientConnected s.connected = false) {ok : Bool} {visit : Visit V}
    (hinit : (s.visit.withGroup s.visit.group.mqttDisconnected).initMqttClient env = (ok, visit)) :
    run MqttSession.step s (List.replicate 3 (.poll env)) =
      { s with
        visit := visit, connected := ok, point := if ok then .looping none else .idle } := by
  have hfirst := poll_begins env hpoint herror
  rw [hlost, if_neg Bool.false_ne_true] at hfirst
  calc run MqttSession.step s (List.replicate 3 (.poll env))
      = run MqttSession.step { s with point := .lost } (List.replicate 2 (.poll env)) := by
        rw [List.replicate_succ, run_cons, hfirst]
    _ = MqttSession.step { s with
          visit := s.visit.withGroup s.visit.group.mqttDisconnected
          point := .opening } (.poll env) := rfl
    _ = { s with
          visit := visit, connected := ok, point := if ok then .looping none else .idle } := by
        simp only [MqttSession.step, MqttSession.poll, hinit]

/-- A poll with nothing in between is `process_mqtt_tag_group`. -/
theorem poll_alone {env : MqttEnv} {s : MqttSession V} (hpoint : s.point = .idle)
    (herror : s.visit.group.hasError = false) (hconnected : env.isConnected = s.connected) :
    ∃ n, (run MqttSession.step s (List.replicate n (.poll env))).point = .idle ∧
      (run MqttSession.step s (List.replicate n (.poll env))).visit =
        s.visit.processMqttTagGroup env := by
  rcases processMqttTagGroup_cases env s.visit with
    ⟨impl, himpl, hfound, hpoll⟩ | ⟨hlost, ok, visit, impl, hinit, himpl, hpoll⟩
  · have hfirst := poll_begins env hpoint herror
    rw [hconnected] at hfound
    rw [hfound, if_pos rfl] at hfirst
    obtain ⟨n, hidle, hend⟩ := tags_alone env (s := { s with point := .looping none }) rfl himpl
    rw [← hfirst] at hidle hend
    refine ⟨n + 1, hidle, ?_⟩
    rw [List.replicate_succ, run_cons, hend, hpoll, hfirst]
  · rw [hconnected] at hlost
    have hopened := reconnects_alone hpoint herror hlost hinit
    cases ok with
    | false =>
      refine ⟨3, ?_, ?_⟩
      · rw [hopened]
        rfl
      · rw [hopened, hpoll]
        rfl
    | true =>
      rw [if_pos rfl] at hopened
      obtain ⟨n, hidle, hend⟩ :=
        tags_alone env (s := { s with visit := visit, connected := true, point := .looping none })
          rfl himpl
      rw [← hopened, ← run_append, ← List.replicate_add] at hidle hend
      refine ⟨3 + n, hidle, ?_⟩
      rw [hend, hpoll, if_pos rfl, hopened]

/-! ## What every step keeps -/

/-- Every tag shows the last message on its topic. -/
def ShowsLast (tags : Std.ExtTreeMap CStr MqttTagEntry) (h : List Happening) : Prop :=
  ∀ tagName tag, tags[tagName]? = some tag → tag.data = lastHeard tagName h

/-- Every tag marked as subscribed is, on the client there is. -/
def Subscribed (tags : Std.ExtTreeMap CStr MqttTagEntry) (client : Option Nat)
    (subscriptions : List (Nat × CStr)) : Prop :=
  ∀ tagName tag, tags[tagName]? = some tag → tag.subscribed = true →
    ∃ c, client = some c ∧ (c, tagName) ∈ subscriptions

/-- The tags show what came since the client was found disconnected. While that is forgotten of the
time before, nothing comes in; and the loop over the tags has a client. -/
structure Current (x : MqttSession V × Option (List Happening)) : Prop where
  protocol : x.1.visit.group.protocol = .mqtt
  shows : ∀ h, x.2 = some h → x.1.point ≠ .lost → ShowsLast x.1.visit.group.mqttTags h
  quiet : x.1.point = .lost → x.1.visit.group.mqttClientConnected x.1.connected = false ∧
    ∀ h, x.2 = some h → ∀ tagName, lastHeard tagName h = none
  client : ∀ last, x.1.point = .looping last → ∃ c, x.1.visit.group.mqttClient = some c
  subscribed : Subscribed x.1.visit.group.mqttTags x.1.visit.group.mqttClient x.1.subscriptions

/-- A client is connected if it is there and says so. -/
theorem mqttClientConnected_eq (g : TagGroup V) (connected : Bool) :
    g.mqttClientConnected connected = (g.mqttClient.isSome && connected) := by
  rw [TagGroup.mqttClientConnected, TagGroup.mqttClient]
  cases g.mqttImpl with
  | none => rfl
  | some impl => rfl

/-- A message that is taken is the last of its topic. -/
theorem ShowsLast.message {tags : Std.ExtTreeMap CStr MqttTagEntry} {h : List Happening}
    (hshows : ShowsLast tags h) (topic : CStr) (payload : List UInt8) (tag : MqttTagEntry) :
    ShowsLast (tags.insert topic { tag with value := payload, hasData := true })
      (.message topic payload :: h) := by
  intro tagName tag' htag'
  rcases (getElem?_insert_iff _ _ _ _ _).mp htag' with ⟨rfl, rfl⟩ | ⟨hne, htag'⟩
  · rw [lastHeard, if_pos rfl]
    rfl
  · rw [lastHeard, if_neg (Ne.symm hne)]
    exact hshows tagName tag' htag'

/-- A message for no tag changes no tag. -/
theorem ShowsLast.dropped {tags : Std.ExtTreeMap CStr MqttTagEntry} {h : List Happening}
    (hshows : ShowsLast tags h) {topic : CStr} (htopic : tags[topic]? = none)
    (payload : List UInt8) : ShowsLast tags (.message topic payload :: h) := by
  intro tagName tag htag
  have hne : topic ≠ tagName := by
    rintro rfl
    rw [htopic] at htag
    cases htag
  rw [lastHeard, if_neg hne]
  exact hshows tagName tag htag

/-- A tag that is registered shows nothing yet. -/
theorem ShowsLast.registered {tags : Std.ExtTreeMap CStr MqttTagEntry} {h : List Happening}
    (hshows : ShowsLast tags h) (tagName : CStr) :
    ShowsLast (tags.insert tagName {}) (.registered tagName :: h) := by
  intro tagName' tag htag
  rcases (getElem?_insert_iff _ _ _ _ _).mp htag with ⟨rfl, rfl⟩ | ⟨hne, htag⟩
  · rw [lastHeard, if_pos rfl]
    rfl
  · rw [lastHeard, if_neg (Ne.symm hne)]
    exact hshows tagName' tag htag

/-- An entry with the data of the one it takes the place of. -/
theorem ShowsLast.replace {tags : Std.ExtTreeMap CStr MqttTagEntry} {h : List Happening}
    (hshows : ShowsLast tags h) {tagName : CStr} {tag tag' : MqttTagEntry}
    (htag : tags[tagName]? = some tag) (hdata : tag'.data = tag.data) :
    ShowsLast (tags.insert tagName tag') h := by
  intro tagName' tag'' htag''
  rcases (getElem?_insert_iff _ _ _ _ _).mp htag'' with ⟨rfl, rfl⟩ | ⟨-, htag''⟩
  · rw [hdata]
    exact hshows tagName' tag htag
  · exact hshows tagName' tag'' htag''

/-- A new entry that is subscribed only if the one before it was, or the subscription was taken. -/
theorem Subscribed.insert {tags : Std.ExtTreeMap CStr MqttTagEntry} {client : Option Nat}
    {subs subs' : List (Nat × CStr)} (hsubs : Subscribed tags client subs)
    (hmono : ∀ s ∈ subs, s ∈ subs') {tagName : CStr} {tag : MqttTagEntry}
    (hnew : tag.subscribed = true → ∃ c, client = some c ∧ (c, tagName) ∈ subs') :
    Subscribed (tags.insert tagName tag) client subs' := by
  intro tagName' tag' htag' hsubscribed
  rcases (getElem?_insert_iff _ _ _ _ _).mp htag' with ⟨rfl, rfl⟩ | ⟨-, htag'⟩
  · exact hnew hsubscribed
  · obtain ⟨c, hclient, hmem⟩ := hsubs tagName' tag' htag' hsubscribed
    exact ⟨c, hclient, hmono _ hmem⟩

/-- Where no tag is marked there is nothing to say. -/
theorem subscribed_of_none {tags : Std.ExtTreeMap CStr MqttTagEntry}
    {f : CStr → MqttTagEntry → MqttTagEntry}
    (hf : ∀ tagName tag, (f tagName tag).subscribed = false) (client : Option Nat)
    (subs : List (Nat × CStr)) : Subscribed (tags.map f) client subs := by
  intro tagName tag htag hsubscribed
  rw [Std.ExtTreeMap.getElem?_map] at htag
  obtain ⟨tag', -, rfl⟩ := Option.map_eq_some_iff.mp htag
  rw [hf] at hsubscribed
  cases hsubscribed

variable {s : MqttSession V} {h : Option (List Happening)}

/-- The tags change from another thread, the work thread stands where it stood. -/
theorem Current.retag (hx : Current (s, h)) {visit : Visit V} {h' : Option (List Happening)}
    {tags : Std.ExtTreeMap CStr MqttTagEntry} (hg : s.visit.group.Retagged tags visit.group)
    (hshows : ∀ l, h' = some l → s.point ≠ .lost → ShowsLast tags l)
    (hquiet : s.point = .lost → ∀ l, h' = some l → ∀ tagName, lastHeard tagName l = none)
    (hsubscribed : Subscribed tags s.visit.group.mqttClient s.subscriptions) :
    Current ({ s with visit := visit }, h') := by
  obtain ⟨htags, hclient, hprotocol⟩ := hg
  refine ⟨hprotocol.trans hx.protocol, ?_, fun hpoint => ⟨?_, hquiet hpoint⟩, fun last hpoint => ?_, ?_⟩
  · simp only [htags]
    exact hshows
  · have hlost := (hx.quiet hpoint).1
    rw [mqttClientConnected_eq] at hlost ⊢
    simp only [hclient]
    exact hlost
  · simp only [hclient]
    exact hx.client last hpoint
  · simp only [htags, hclient]
    exact hsubscribed

/-- A group has the tags it has. -/
theorem TagGroup.retagged_self (g : TagGroup V) : g.Retagged g.mqttTags g := ⟨rfl, rfl, rfl⟩

/-- A message comes in. -/
theorem Current.arrived (hx : Current (s, h)) (topic : CStr) (payload : List UInt8) :
    Current (watch MqttSession.step happened (s, h) (.arrived topic payload)) := by
  rw [watch, MqttSession.step, happened]
  cases hconnected : s.visit.group.mqttClientConnected s.connected with
  | false =>
    simp only [Bool.false_eq_true, if_false]
    exact hx
  | true =>
    have hpoint : s.point ≠ .lost := by
      intro hlost
      rw [(hx.quiet hlost).1] at hconnected
      cases hconnected
    simp only [if_true]
    rcases mqttMessageArrived_tags s.visit.group topic payload with
      ⟨hnone, hsame⟩ | ⟨tag, htag, hafter⟩
    · rw [hsame]
      refine hx.retag s.visit.group.retagged_self (fun l hl _ => ?_) (absurd · hpoint) hx.subscribed
      obtain ⟨l, rfl, rfl⟩ := Option.map_eq_some_iff.mp hl
      exact (hx.shows l rfl hpoint).dropped hnone payload
    · refine hx.retag hafter (fun l hl _ => ?_) (absurd · hpoint) ?_
      · obtain ⟨l, rfl, rfl⟩ := Option.map_eq_some_iff.mp hl
        exact (hx.shows l rfl hpoint).message topic payload tag
      · exact hx.subscribed.insert (fun _ hmem => hmem) (hx.subscribed topic tag htag)

/-- A tag is registered. -/
theorem Current.registerTag (hx : Current (s, h)) (tagName : CStr) (ty : TagType) :
    Current (watch MqttSession.step happened (s, h) (.registerTag tagName ty)) := by
  rw [watch]
  cases hhas : s.visit.group.has tagName with
  | true =>
    have hstep : s.step (.registerTag tagName ty) = s := by
      rw [MqttSession.step, hhas, Bool.or_true, if_pos rfl]
    rw [happened, hstep, hhas]
    exact hx
  | false =>
    by_cases hname : tagName = []
    · have hstep : s.step (.registerTag tagName ty) = s := by
        rw [MqttSession.step, hname, decide_eq_true rfl, Bool.true_or, if_pos rfl]
      rw [happened, hstep, hhas]
      exact hx
    · have hstep : s.step (.registerTag tagName ty) =
          { s with visit := (s.visit.registerTag tagName ty).2 } := by
        rw [MqttSession.step, hhas, decide_eq_false hname, Bool.or_false, if_neg Bool.false_ne_true]
      rw [happened, hstep, hhas]
      rcases registerTag_mqtt hx.protocol tagName ty with hsame | hafter
      · have hself : s.visit.group.Retagged s.visit.group.mqttTags
            (s.visit.registerTag tagName ty).2.group := by
          rw [hsame]
          exact s.visit.group.retagged_self
        simp only [hsame, hhas, Bool.and_false, Bool.false_eq_true, if_false]
        exact hx.retag hself hx.shows (fun hpoint => (hx.quiet hpoint).2) hx.subscribed
      · have hnew : (s.visit.registerTag tagName ty).2.group.has tagName = true := by
          rw [has_eq_contains (hafter.protocol.trans hx.protocol), hafter.tags,
            Std.ExtTreeMap.contains_insert_self]
        simp only [hnew, Bool.not_false, Bool.and_self, if_true]
        refine hx.retag hafter (fun l hl hpoint => ?_) (fun hpoint l hl name => ?_) ?_
        · obtain ⟨l, rfl, rfl⟩ := Option.map_eq_some_iff.mp hl
          exact (hx.shows l rfl hpoint).registered tagName
        · obtain ⟨l, rfl, rfl⟩ := Option.map_eq_some_iff.mp hl
          rw [lastHeard]
          split
          · rfl
          · exact (hx.quiet hpoint).2 l rfl name
        · exact hx.subscribed.insert (fun _ hmem => hmem) (fun hno => nomatch hno)

/-- A poll that is under way does not look for the connection again. -/
theorem findsLost_of_ne {p : PollPoint} (hpoint : s.point = p) (hne : p ≠ .idle) :
    s.findsLost = false := by
  have hnot : s.point ≠ .idle := fun hidle => hne (hpoint.symm.trans hidle)
  rw [MqttSession.findsLost, decide_eq_false hnot, Bool.false_and, Bool.false_and]

/-- A poll begins. -/
theorem Current.begins (hx : Current (s, h)) (hpoint : s.point = .idle) (env : MqttEnv) :
    Current (watch MqttSession.step happened (s, h) (.poll env)) := by
  rw [watch, MqttSession.step, happened, MqttSession.poll, MqttSession.findsLost]
  simp only [hpoint, decide_true, Bool.true_and]
  cases herror : s.visit.group.hasError with
  | true =>
    simp only [if_true, Bool.not_true, Bool.false_and, Bool.false_eq_true, if_false]
    exact hx
  | false =>
    simp only [Bool.false_eq_true, if_false, Bool.not_false, Bool.true_and]
    cases hconnected : s.visit.group.mqttClientConnected s.connected with
    | true =>
      simp only [if_true, Bool.not_true, Bool.false_eq_true, if_false]
      refine ⟨hx.protocol, fun l hl _ => ?_, fun hlost => (nomatch hlost), fun _ _ => ?_,
        hx.subscribed⟩
      · exact hx.shows l hl (by rw [hpoint]; exact PollPoint.noConfusion)
      · rw [mqttClientConnected_eq, Bool.and_eq_true] at hconnected
        exact Option.isSome_iff_exists.mp hconnected.1
    | false =>
      simp only [Bool.false_eq_true, if_false, Bool.not_false, if_true]
      refine ⟨hx.protocol, fun l hl hno => absurd rfl hno, fun _ => ⟨hconnected, ?_⟩,
        fun _ hno => (nomatch hno), hx.subscribed⟩
      rintro l hl tagName
      obtain rfl := Option.some.inj hl
      rfl

/-- What was received is forgotten. -/
theorem Current.forgets (hx : Current (s, h)) (hpoint : s.point = .lost) (env : MqttEnv) :
    Current (watch MqttSession.step happened (s, h) (.poll env)) := by
  rw [watch, MqttSession.step, happened, MqttSession.poll,
    findsLost_of_ne hpoint PollPoint.noConfusion]
  obtain ⟨htags, hclient, hprotocol⟩ := mqttDisconnected_tags s.visit.group
  simp only [hpoint, Bool.false_eq_true, if_false]
  refine ⟨hprotocol.trans hx.protocol, fun l hl _ => ?_, fun hno => (nomatch hno),
    fun _ hno => (nomatch hno), ?_⟩
  · intro tagName tag htag
    rw [Visit.withGroup, htags, Std.ExtTreeMap.getElem?_map] at htag
    obtain ⟨tag, -, rfl⟩ := Option.map_eq_some_iff.mp htag
    exact ((hx.quiet hpoint).2 l hl tagName).symm
  · rw [Visit.withGroup, htags]
    exact subscribed_of_none (fun _ _ => rfl) _ _

/-- A client is made. -/
theorem Current.opens (hx : Current (s, h)) (hpoint : s.point = .opening) (env : MqttEnv) :
    Current (watch MqttSession.step happened (s, h) (.poll env)) := by
  rw [watch, MqttSession.step, happened, MqttSession.poll,
    findsLost_of_ne hpoint PollPoint.noConfusion]
  obtain ⟨htags, hok, hprotocol⟩ := initMqttClient_tags env s.visit
  rcases hinit : s.visit.initMqttClient env with ⟨ok, visit⟩
  rw [hinit] at htags hok hprotocol
  simp only [hpoint, Bool.false_eq_true, if_false]
  refine ⟨hprotocol.trans hx.protocol, fun l hl _ => ?_, fun hlost => ?_, fun last hloop => ?_, ?_⟩
  · intro tagName tag htag
    simp only [htags, Std.ExtTreeMap.getElem?_map] at htag
    obtain ⟨old, hold, rfl⟩ := Option.map_eq_some_iff.mp htag
    exact hx.shows l hl (by rw [hpoint]; exact PollPoint.noConfusion) tagName old hold
  · cases ok <;> cases hlost
  · cases ok with
    | true => exact Option.isSome_iff_exists.mp hok.symm
    | false => cases hloop
  · simp only [htags]
    exact subscribed_of_none (fun _ _ => rfl) _ _

/-- A tag's turn, or the end of the loop. -/
theorem Current.turns (hx : Current (s, h)) {last : Option CStr}
    (hpoint : s.point = .looping last) (env : MqttEnv) :
    Current (watch MqttSession.step happened (s, h) (.poll env)) := by
  rw [watch, MqttSession.step, happened, MqttSession.poll,
    findsLost_of_ne hpoint PollPoint.noConfusion]
  obtain ⟨client, hclient⟩ := hx.client last hpoint
  have hshows : ∀ l, h = some l → ShowsLast s.visit.group.mqttTags l := fun l hl =>
    hx.shows l hl (by rw [hpoint]; exact PollPoint.noConfusion)
  simp only [hpoint, Bool.false_eq_true, if_false]
  cases hnext : nextTag last s.visit.group.mqttTags with
  | none =>
    exact ⟨hx.protocol, fun l hl _ => hshows l hl, fun hno => (nomatch hno),
      fun _ hno => (nomatch hno), hx.subscribed⟩
  | some next =>
    obtain ⟨tagName, tag⟩ := next
    have htag := mem_of_nextTag hnext
    obtain ⟨htags, hsame, hprotocol⟩ :=
      mqttTurn_tags hclient tagName (pollMqttTag env tagName tag : Swept _ (Effect V))
    simp only
    refine ⟨hprotocol.trans hx.protocol, fun l hl _ => ?_, fun hlost => ?_, fun _ _ => ?_, ?_⟩
    · simp only [Visit.withGroup, htags]
      exact (hshows l hl).replace htag (pollMqttTag_data env tagName tag)
    · by_cases hgoes :
          (pollMqttTag env tagName tag : Swept MqttTagEntry (Effect V)).goes = true
      · simp only [if_pos hgoes, reduceCtorEq] at hlost
      · simp only [if_neg hgoes, reduceCtorEq] at hlost
    · exact ⟨client, hsame.trans hclient⟩
    · have hold := hx.subscribed
      simp only [Visit.withGroup, htags, hsame, hclient] at hold ⊢
      cases hsubscribed : tag.subscribed with
      | true =>
        simp only [Bool.not_true, Bool.false_and, Bool.false_eq_true, if_false]
        exact hold.insert (fun _ hmem => hmem) fun _ => hold tagName tag htag hsubscribed
      | false =>
        cases hentry :
          (pollMqttTag env tagName tag : Swept MqttTagEntry (Effect V)).entry.subscribed with
        | true =>
          simp only [Bool.not_false, Bool.and_self, if_true]
          exact hold.insert (fun _ hmem => List.mem_cons_of_mem _ hmem) fun _ =>
            ⟨client, rfl, List.mem_cons_self⟩
        | false =>
          simp only [Bool.not_false, Bool.and_false, Bool.false_eq_true, if_false]
          refine hold.insert (fun _ hmem => hmem) fun hyes => ?_
          rw [hentry] at hyes
          cases hyes

/-- The work thread goes on. -/
theorem Current.poll (hx : Current (s, h)) (env : MqttEnv) :
    Current (watch MqttSession.step happened (s, h) (.poll env)) := by
  cases hpoint : s.point with
  | idle => exact hx.begins hpoint env
  | lost => exact hx.forgets hpoint env
  | opening => exact hx.opens hpoint env
  | looping last => exact hx.turns hpoint env

/-- The connection is lost. -/
theorem Current.lost (hx : Current (s, h)) :
    Current (watch MqttSession.step happened (s, h) .lost) := by
  refine ⟨hx.protocol, hx.shows, fun hpoint => ⟨?_, (hx.quiet hpoint).2⟩, hx.client, hx.subscribed⟩
  rw [mqttClientConnected_eq]
  exact Bool.and_false _

/-- Every step keeps what is shown current. -/
theorem Current.step {x : MqttSession V × Option (List Happening)} (hx : Current x) (e : MqttEvent) :
    Current (watch MqttSession.step happened x e) := by
  cases e with
  | arrived topic payload => exact hx.arrived topic payload
  | lost => exact hx.lost
  | registerTag tagName ty => exact hx.registerTag tagName ty
  | poll env => exact hx.poll env

/-! ## Every interleaving -/

/-- What a read returns of a tag. -/
theorem mqttRead_eq {g : TagGroup V} (hprotocol : g.protocol = .mqtt) (herror : g.hasError = false)
    {tagName : CStr} {tag : MqttTagEntry} (htag : g.mqttTags[tagName]? = some tag) (size : Nat) :
    g.mqttRead true true tagName size = leading size tag.data := by
  have hhas : g.has tagName = true := by
    rw [has_eq_contains hprotocol, Std.ExtTreeMap.contains_eq_isSome_getElem?, htag, Option.isSome_some]
  rw [TagGroup.mqttRead, hhas, herror]
  rw [TagGroup.mqttTags] at htag
  cases himpl : g.mqttImpl with
  | none =>
    rw [himpl] at htag
    cases Std.ExtTreeMap.getElem?_empty.symm.trans htag
  | some impl =>
    rw [himpl] at htag
    have hget : impl.tags[tagName]? = some tag := htag
    simp only [Bool.and_self, if_true, Bool.false_eq_true, if_false, hget, MqttTagEntry.data]
    cases tag.hasData with
    | false => rfl
    | true =>
      simp only [Bool.not_true, Bool.false_or, decide_eq_true_eq, if_true, leading]

/-- What is current serves the last that was heard. -/
theorem Current.serves {x : MqttSession V × Option (List Happening)} (hx : Current x) :
    Serves lastHeard x := by
  refine ⟨fun h hh hpoint herror tagName hhas size => ?_, hx.subscribed⟩
  rw [has_eq_contains hx.protocol, Std.ExtTreeMap.contains_eq_isSome_getElem?] at hhas
  obtain ⟨tag, htag⟩ := Option.isSome_iff_exists.mp hhas
  rw [mqttRead_eq hx.protocol herror htag, hx.shows h hh hpoint tagName tag htag]

/-- A group that was just registered. -/
def MqttSession.start (pollingInterval : Int) (gateway path cpu : CStr) (next : Nat) :
    MqttSession V where
  visit := { group := .registered pollingInterval .mqtt gateway path cpu, next := next }

/-- In every interleaving, after a poll that found the client disconnected a read returns the leading
bytes of the last message on the tag's topic that arrived since that poll began and the tag was
registered, and 0 without one; and what is marked as subscribed is, on the client there is. -/
theorem reads_current_session (pollingInterval : Int) (gateway path cpu : CStr) (next : Nat)
    (events : List MqttEvent) :
    Along (watch MqttSession.step happened) (Serves (V := V) lastHeard)
      (.start pollingInterval gateway path cpu next, none) events := by
  have hstart : Current ((.start pollingInterval gateway path cpu next, none) :
      MqttSession V × Option (List Happening)) := by
    refine ⟨rfl, fun _ hno => (nomatch hno), fun hno => (nomatch hno), fun _ hno => (nomatch hno), ?_⟩
    intro tagName tag htag
    cases Std.ExtTreeMap.getElem?_empty.symm.trans htag
  exact (along_of_invariant _ (fun _ e hx => hx.step e) hstart events).mono _ fun _ hx => hx.serves

/-- A shared subscription brings in a message on a topic that no tag has yet; then the tag comes. -/
def sharedThenOwn : List MqttEvent :=
  .registerTag "$share/g/b".toList .uint8 :: List.replicate 5 (.poll {}) ++
    [.arrived "b".toList [42], .registerTag "b".toList .uint8]

/-- A message that came before its tag was registered is not kept for it. -/
theorem message_before_tag :
    (run (watch MqttSession.step happened)
        (MqttSession.start (V := Unit) 100 "h".toList [] [] 0, none)
        sharedThenOwn).1.visit.group.mqttRead true true "b".toList 1 = [0] ∧
    ¬ Along (watch MqttSession.step happened) (Serves lastArrived)
      (MqttSession.start (V := Unit) 100 "h".toList [] [] 0, none) sharedThenOwn := by
  have hread : (run (watch MqttSession.step happened)
      (MqttSession.start (V := Unit) 100 "h".toList [] [] 0, none)
      sharedThenOwn).1.visit.group.mqttRead true true "b".toList 1 = [0] := by
    decide +kernel
  refine ⟨hread, fun halong => ?_⟩
  have hserves := (Along.last _ halong).reads
    [.registered "b".toList, .message "b".toList [42]] rfl (by decide +kernel) (by decide +kernel)
    "b".toList (by decide +kernel) 1
  rw [hread] at hserves
  exact absurd hserves (by decide)

end OipComms.Backend
