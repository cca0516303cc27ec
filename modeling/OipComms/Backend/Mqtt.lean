import OipComms.Backend.Group

/-!
# An MQTT group

A poll that does not find the client connected makes a new one, and every topic is to be subscribed
again. Values come in by messages, whenever the client is connected.
-/

namespace OipComms.Backend

open Sweep

/-- What Paho answers in a poll, and the name a client takes that was given none. -/
structure MqttEnv where
  isConnected : Bool := true
  defaultClientId : CStr := []
  create : CStr → CStr → Bool := fun _ _ => true
  setCallbacks : Bool := true
  connect : CStr → CStr → Bool := fun _ _ => true
  subscribe : CStr → Bool := fun _ => true

variable {V : Type}

/-- `String::strip_edges`. -/
def stripEdges (s : CStr) : CStr :=
  ((s.dropWhile (· ≤ ' ')).reverse.dropWhile (· ≤ ' ')).reverse

/-- `mqtt_build_server_uri`. -/
def mqttBuildServerUri (gateway : CStr) : CStr :=
  let g := stripEdges gateway
  let schemes := ["tcp://".toList, "ssl://".toList, "mqtt://".toList, "mqtts://".toList]
  if g = [] then []
  else if schemes.any fun scheme => scheme.isPrefixOf (g.map Char.toLower) then g
  else "tcp://".toList ++ if g.contains ':' then g else g ++ ":1883".toList

/-- `mqtt_split_credentials`: user and password. -/
def mqttSplitCredentials (cpu : CStr) : CStr × CStr :=
  let c := stripEdges cpu
  match c.idxOf? ':' with
  | none => (c, [])
  | some colon => (c.take colon, c.drop (colon + 1))

/-- `mqtt_client_connected`. -/
def TagGroup.mqttClientConnected (g : TagGroup V) (isConnected : Bool) : Bool :=
  g.mqttImpl.any fun impl => impl.client.isSome && isConnected

/-- A group's client is destroyed, and no topic is subscribed. -/
def MqttTagGroupImpl.dropped (impl : MqttTagGroupImpl) : MqttTagGroupImpl :=
  { impl with client := none, tags := impl.tags.map fun _ tag => { tag with subscribed := false } }

/-- The client of `init_mqtt_client`: its name and the credentials it connects with. -/
def MqttTagGroupImpl.configured (env : MqttEnv) (g : TagGroup V) (impl : MqttTagGroupImpl) :
    MqttTagGroupImpl :=
  let cid := stripEdges g.path
  { impl with
    clientId := if cid = [] then env.defaultClientId else cid
    username := (mqttSplitCredentials g.cpu).1
    password := (mqttSplitCredentials g.cpu).2 }

/-- `init_mqtt_client` on the object of a group: the old client is destroyed, and so is a new one that
was created and cannot be used. The client that is left is connected. -/
def MqttTagGroupImpl.connect (env : MqttEnv) (g : TagGroup V) (client : Nat)
    (impl : MqttTagGroupImpl) : MqttTagGroupImpl × List (LibCall V) :=
  let destroyed := releases (impl.client.toList.map .mqttClient)
  let impl := { impl.dropped with serverUri := mqttBuildServerUri g.gateway }
  if impl.serverUri = [] then (impl, destroyed)
  else
    let impl := impl.configured env g
    if !env.create impl.serverUri impl.clientId then (impl, destroyed)
    else if env.setCallbacks && env.connect impl.username impl.password then
      ({ impl with client := some client }, destroyed ++ [.acquire (.mqttClient client)])
    else (impl, destroyed ++ [.acquire (.mqttClient client), .release (.mqttClient client)])

/-- A client can be made for the group, and connected. -/
def TagGroup.mqttReachable (g : TagGroup V) (env : MqttEnv) : Bool :=
  let uri := mqttBuildServerUri g.gateway
  let cid := stripEdges g.path
  let (username, password) := mqttSplitCredentials g.cpu
  uri ≠ [] && env.create uri (if cid = [] then env.defaultClientId else cid) &&
    (env.setCallbacks && env.connect username password)

/-- `init_mqtt_client`. -/
def Visit.initMqttClient (env : MqttEnv) (v : Visit V) : Bool × Visit V :=
  let (impl, v) := v.mqtt
  let (impl, calls) := impl.connect env v.group v.next
  (impl.client.isSome,
    { v with
      group := { v.group with mqttImpl := some impl }, next := v.next + 1 }.makes calls)

/-- A tag's turn in `process_mqtt_tag_group`, with `init_mqtt_tag`. -/
def pollMqttTag (env : MqttEnv) (tagName : CStr) (tag : MqttTagEntry) :
    Swept MqttTagEntry (Effect V) :=
  if tag.subscribed then { entry := tag, out := {} }
  else if env.subscribe tagName then
    { entry := { tag with subscribed := true }, out := { counted := 1 } }
  else { entry := tag, out := { failed := true }, goes := false }

/-- What `process_mqtt_tag_group` does when the client is not connected: the subscriptions are lost,
and what was received is not served any more. -/
def TagGroup.mqttDisconnected (g : TagGroup V) : TagGroup V :=
  match g.mqttImpl with
  | none => g
  | some impl =>
    { g with
      mqttImpl := some { impl with
        tags := impl.tags.map fun _ tag => { tag with subscribed := false, hasData := false } }
      initCount := 0
      initCountEmitted := false }

/-- The tags of a group whose client is connected. -/
def Visit.pollMqttTags (env : MqttEnv) (impl : MqttTagGroupImpl) (v : Visit V) : Visit V :=
  let s := sweep (pollMqttTag env) impl.tags
  (v.withGroup { v.group with mqttImpl := some { impl with tags := s.entries } }).absorb s.outs

/-- `process_mqtt_tag_group`. -/
def Visit.processMqttTagGroup (env : MqttEnv) (v : Visit V) : Visit V :=
  let (connected, v) :=
    if v.group.mqttClientConnected env.isConnected then (true, v)
    else (v.withGroup v.group.mqttDisconnected).initMqttClient env
  match v.group.mqttImpl with
  | some impl => if connected then v.pollMqttTags env impl else v
  | none => v

/-- A connect takes the subscriptions of all tags away. -/
theorem connect_tags (env : MqttEnv) (g : TagGroup V) (client : Nat) (impl : MqttTagGroupImpl) :
    (impl.connect env g client).1.tags = impl.dropped.tags := by
  unfold MqttTagGroupImpl.connect
  simp only
  split
  · rfl
  split
  · rfl
  split
  · rfl
  · rfl

/-- A client that connects is kept. -/
theorem connect_of_reachable {env : MqttEnv} {g : TagGroup V} (h : g.mqttReachable env = true)
    (client : Nat) (impl : MqttTagGroupImpl) :
    (impl.connect env g client).1.client = some client := by
  simp only [TagGroup.mqttReachable, Bool.and_eq_true, decide_eq_true_eq] at h
  obtain ⟨⟨huri, hcreate⟩, hcallbacks, hconnect⟩ := h
  unfold MqttTagGroupImpl.connect
  simp only [MqttTagGroupImpl.configured, MqttTagGroupImpl.dropped, if_neg huri, hcreate,
    hcallbacks, hconnect, Bool.not_true, Bool.false_eq_true, if_false, Bool.and_self, if_true]

/-- What becomes of the clients is accounted for. -/
theorem connect_holds (env : MqttEnv) (g : TagGroup V) (client : Nat) (impl : MqttTagGroupImpl) :
    (impl.holds : Multiset Resource) + acquired (impl.connect env g client).2 =
      (impl.connect env g client).1.holds + released (impl.connect env g client).2 := by
  have hdestroyed : (impl.holds : Multiset Resource) =
      {.mqttImpl impl.address} +
        released (releases (V := V) (impl.client.toList.map .mqttClient)) := by
    rw [released_releases, add_comm]
    rfl
  rw [hdestroyed]
  unfold MqttTagGroupImpl.connect
  simp only
  split
  · rw [acquired_releases, add_zero]
    rfl
  split
  · rw [acquired_releases, add_zero]
    rfl
  split
  · have hnone : released [LibCall.acquire (V := V) (.mqttClient client)] = 0 := rfl
    rw [acquired_append, released_append, acquired_releases, zero_add, hnone, add_zero,
      add_right_comm, add_comm {Resource.mqttImpl impl.address}]
    rfl
  · rw [acquired_append, released_append, acquired_releases, zero_add, add_assoc]
    rfl

/-- Making a client changes the object and the error of a group. -/
theorem Visit.initMqttClient_group (env : MqttEnv) (v : Visit V) :
    (v.initMqttClient env).2.group =
      { v.group with mqttImpl := some (v.mqtt.1.connect env v.mqtt.2.group v.mqtt.2.next).1 } := rfl

/-- Making a client succeeds where the broker can be reached. -/
theorem Visit.initMqttClient_ok (env : MqttEnv) (v : Visit V)
    (h : v.group.mqttReachable env = true) : (v.initMqttClient env).1 = true := by
  have hclient := connect_of_reachable (g := v.mqtt.2.group) h v.mqtt.2.next v.mqtt.1
  exact Option.isSome_iff_exists.mpr ⟨_, hclient⟩

/-- A poll finds the client connected; or it makes a new one, and goes on if it could. -/
theorem processMqttTagGroup_cases (env : MqttEnv) (v : Visit V) :
    (∃ impl, v.group.mqttImpl = some impl ∧ v.group.mqttClientConnected env.isConnected = true ∧
      v.processMqttTagGroup env = v.pollMqttTags env impl) ∨
    v.group.mqttClientConnected env.isConnected = false ∧
      ∃ ok v' impl, (v.withGroup v.group.mqttDisconnected).initMqttClient env = (ok, v') ∧
        v'.group.mqttImpl = some impl ∧
        v.processMqttTagGroup env = if ok then v'.pollMqttTags env impl else v' := by
  unfold Visit.processMqttTagGroup
  cases hconnected : v.group.mqttClientConnected env.isConnected with
  | true =>
    obtain ⟨impl, himpl, -⟩ := (Option.any_eq_true _ _).mp hconnected
    refine .inl ⟨impl, himpl, rfl, ?_⟩
    simp only [if_true, himpl]
  | false =>
    refine .inr ⟨rfl, ?_⟩
    simp only [Bool.false_eq_true, if_false]
    exact ⟨_, _, _, rfl, rfl, rfl⟩

/-- A lost connection changes the object and the counts of a group. -/
theorem mqttDisconnected_group (g : TagGroup V) :
    ∃ mqttImpl initCount initCountEmitted, g.mqttDisconnected =
      { g with
        mqttImpl := mqttImpl, initCount := initCount, initCountEmitted := initCountEmitted } := by
  unfold TagGroup.mqttDisconnected
  split
  · exact ⟨_, _, _, rfl⟩
  · exact ⟨_, _, _, rfl⟩

theorem mqttDisconnected_protocol (g : TagGroup V) : g.mqttDisconnected.protocol = g.protocol := by
  obtain ⟨_, _, _, hgroup⟩ := mqttDisconnected_group g
  rw [hgroup]

/-- A group that was found disconnected has its tags. -/
theorem mem_mqttDisconnected (g : TagGroup V) (k : CStr) :
    k ∈ g.mqttDisconnected.mqttTags ↔ k ∈ g.mqttTags := by
  unfold TagGroup.mqttDisconnected TagGroup.mqttTags
  cases himpl : g.mqttImpl with
  | none =>
    rw [himpl]
  | some impl => exact Std.ExtTreeMap.mem_map

/-- A poll changes the object, the counts and the error of a group. -/
theorem Visit.processMqttTagGroup_group (env : MqttEnv) (v : Visit V) :
    ∃ mqttImpl initCount initCountEmitted hasError, (v.processMqttTagGroup env).group =
      { v.group with
        mqttImpl := mqttImpl, initCount := initCount, initCountEmitted := initCountEmitted
        hasError := hasError } := by
  rcases processMqttTagGroup_cases env v with
    ⟨impl, -, -, hpoll⟩ | ⟨-, ok, v', impl, hinit, -, hpoll⟩
  · rw [hpoll]
    exact ⟨_, _, _, _, rfl⟩
  · have hgroup := (v.withGroup v.group.mqttDisconnected).initMqttClient_group env
    obtain ⟨_, _, _, hdisconnected⟩ := mqttDisconnected_group v.group
    rw [hinit, Visit.withGroup] at hgroup
    simp only [hdisconnected] at hgroup
    rw [hpoll]
    split
    · simp only [Visit.pollMqttTags, Visit.absorb, Visit.withGroup, hgroup]
      exact ⟨_, _, _, _, rfl⟩
    · rw [hgroup]
      exact ⟨_, _, _, _, rfl⟩

/-- `mqtt_message_arrived`, on the object of a group. -/
def TagGroup.mqttMessageArrived (g : TagGroup V) (topic : CStr) (payload : List UInt8) :
    TagGroup V :=
  match g.mqttImpl with
  | none => g
  | some impl =>
    match impl.tags[topic]? with
    | none => g
    | some tag =>
      let tag := { tag with value := payload, hasData := true }
      { g with mqttImpl := some { impl with tags := impl.tags.insert topic tag } }

/-- A message leaves the subscriptions as they are. -/
theorem mqttMessageArrived_cases (g : TagGroup V) (topic : CStr) (payload : List UInt8) :
    g.mqttMessageArrived topic payload = g ∨
      ∃ impl tag, g.mqttImpl = some impl ∧ impl.tags[topic]? = some tag ∧
        g.mqttMessageArrived topic payload =
          { g with mqttImpl := some { impl with
              tags := impl.tags.insert topic { tag with value := payload, hasData := true } } } := by
  unfold TagGroup.mqttMessageArrived
  split
  · exact .inl rfl
  · rename_i impl himpl
    split
    · exact .inl rfl
    · rename_i tag htag
      exact .inr ⟨impl, tag, himpl, htag, rfl⟩

/-! ## A turn -/

/-- What is known of a turn: it counts the tag if it becomes subscribed, makes no call that is kept,
and ends the sweep by setting `has_error`. -/
structure MqttTurn (tag : MqttTagEntry) (r : Swept MqttTagEntry (Effect V)) : Prop where
  counts : (if tag.subscribed then 1 else 0) + r.out.counted = if r.entry.subscribed then 1 else 0
  calls : r.out.calls = []
  ends : r.out.failed = !r.goes
  initializes : r.goes = true → r.entry.subscribed = true

/-- A turn of the poll subscribes its tag or leaves it. -/
theorem pollMqttTag_turn (env : MqttEnv) (tagName : CStr) (tag : MqttTagEntry) :
    MqttTurn tag (pollMqttTag env tagName tag : Swept MqttTagEntry (Effect V)) := by
  unfold pollMqttTag
  cases hsubscribed : tag.subscribed with
  | true =>
    rw [if_pos rfl]
    exact ⟨rfl, rfl, rfl, fun _ => hsubscribed⟩
  | false =>
    simp only [Bool.false_eq_true, if_false]
    split
    · exact ⟨by simp only [hsubscribed, Bool.false_eq_true, if_false, if_true, Nat.zero_add], rfl,
        rfl, fun _ => rfl⟩
    · exact ⟨rfl, rfl, rfl, fun hgoes => nomatch hgoes⟩

theorem pollMqttTag_stops (env : MqttEnv) (tagName : CStr) (tag : MqttTagEntry) :
    (pollMqttTag env tagName tag : Swept MqttTagEntry (Effect V)).out.stops = false := by
  unfold pollMqttTag
  split
  · rfl
  split
  · rfl
  · rfl

end OipComms.Backend
