import OipComms.Backend.Dispatch

/-!
# What has nothing to do with OPC UA

Five of the six backends, and what happens to a group whatever its backend, leave the OPC UA client
and its tags alone, make no call to read or write, and ask for no signal of a recovery. A group that
is not OPC UA's is only ever worked on by these.
-/

namespace OipComms.Backend

open Sweep

variable {V : Type}

/-- A read or a write uses a node id of the session it is made in. -/
def LibCall.ownSession : LibCall V → Bool
  | .uaRead client node | .uaWrite client node => node.any fun n => n.session = client
  | .acquire _ | .release _ | .softCreate _ _ | .softStep _ _ _ => true

/-- A group with the protocol, the client and the tags of another, and no signal more to come. -/
structure TagGroup.Apart (g g' : TagGroup V) : Prop where
  protocol : g'.protocol = g.protocol
  client : g'.client = g.client
  opcUaTags : g'.opcUaTags = g.opcUaTags
  signal : g'.needsSessionRecoveredSignal = true → g.needsSessionRecoveredSignal = true

/-- What was done in between has nothing to do with OPC UA. -/
structure Visit.Apart (v v' : Visit V) : Prop where
  group : v.group.Apart v'.group
  calls : ∀ c ∈ v'.calls, c ∈ v.calls ∨ c.ownSession = true
  invalidated : v'.invalidated = v.invalidated

/-- Two changes that leave the OPC UA part leave it together. -/
theorem TagGroup.Apart.trans {g g' g'' : TagGroup V} (h : g.Apart g') (h' : g'.Apart g'') :
    g.Apart g'' :=
  ⟨h'.protocol.trans h.protocol, h'.client.trans h.client, h'.opcUaTags.trans h.opcUaTags,
    fun hsignal => h.signal (h'.signal hsignal)⟩

/-- Two steps that leave the OPC UA part leave it together. -/
theorem Visit.Apart.trans {v v' v'' : Visit V} (h : v.Apart v') (h' : v'.Apart v'') :
    v.Apart v'' := by
  refine ⟨h.group.trans h'.group, fun c hc => ?_, h'.invalidated.trans h.invalidated⟩
  exact (h'.calls c hc).elim (h.calls c) .inr

/-- Calls that are not OPC UA's. -/
theorem Visit.Apart.of_append {v v' : Visit V} {calls : List (LibCall V)}
    (hgroup : v.group.Apart v'.group) (hcalls : v'.calls = v.calls ++ calls)
    (hinvalidated : v'.invalidated = v.invalidated)
    (hown : ∀ c ∈ calls, c.ownSession = true) : v.Apart v' := by
  refine ⟨hgroup, fun c hc => ?_, hinvalidated⟩
  rw [hcalls] at hc
  exact (List.mem_append.mp hc).imp id (hown c)

theorem ownSession_releases (rs : List Resource) :
    ∀ c ∈ releases (V := V) rs, c.ownSession = true := by
  intro c hc
  obtain ⟨r, -, rfl⟩ := List.mem_map.mp hc
  rfl

theorem ownSession_acquire (r : Resource) :
    ∀ c ∈ [LibCall.acquire (V := V) r], c.ownSession = true := by
  intro c hc
  rw [List.mem_singleton.mp hc]
  rfl

/-! ## The other backends -/

section
variable (v : Visit V)

/-- A step that only stores the group leaves what the group leaves. -/
theorem Visit.withGroup_apart {g : TagGroup V} (h : v.group.Apart g) : v.Apart (v.withGroup g) :=
  ⟨h, fun _ hc => .inl hc, rfl⟩

theorem Visit.ads_apart : v.Apart v.ads.2 := by
  rcases v.ads_cases with ⟨-, hsame⟩ | ⟨-, hnew⟩
  · rw [hsame]
    exact v.withGroup_apart ⟨rfl, rfl, rfl, id⟩
  · rw [hnew]
    exact .of_append ⟨rfl, rfl, rfl, id⟩ rfl rfl (ownSession_acquire _)

theorem Visit.rtde_apart : v.Apart v.rtde.2 := by
  rcases v.rtde_cases with ⟨-, hsame⟩ | ⟨-, hnew⟩
  · rw [hsame]
    exact v.withGroup_apart ⟨rfl, rfl, rfl, id⟩
  · rw [hnew]
    exact .of_append ⟨rfl, rfl, rfl, id⟩ rfl rfl (ownSession_acquire _)

theorem Visit.mqtt_apart : v.Apart v.mqtt.2 := by
  rcases v.mqtt_cases with ⟨-, hsame⟩ | ⟨-, hnew⟩
  · rw [hsame]
    exact v.withGroup_apart ⟨rfl, rfl, rfl, id⟩
  · rw [hnew]
    exact .of_append ⟨rfl, rfl, rfl, id⟩ rfl rfl (ownSession_acquire _)

theorem Visit.softPlc_apart : v.Apart v.softPlc.2 := by
  rcases v.softPlc_cases with ⟨-, hsame⟩ | ⟨-, hnew⟩
  · rw [hsame]
    exact v.withGroup_apart ⟨rfl, rfl, rfl, id⟩
  · rw [hnew]
    exact .of_append ⟨rfl, rfl, rfl, id⟩ rfl rfl (ownSession_acquire _)

theorem Visit.ofRtde_apart (r : Rtde.TagGroup) : v.Apart (v.ofRtde r) := by
  have hcounts : v.Apart
      (v.withGroup { v.group with initCount := r.initCount, hasError := r.hasError }) :=
    v.withGroup_apart ⟨rfl, rfl, rfl, id⟩
  unfold Visit.ofRtde
  cases r.rtdeImpl with
  | none => exact hcounts.trans (Visit.withGroup_apart _ ⟨rfl, rfl, rfl, id⟩)
  | some impl => exact (hcounts.trans (Visit.rtde_apart _)).trans (Visit.withGroup_apart _ ⟨rfl, rfl, rfl, id⟩)

/-- A poll of libplctag or S7 tags leaves the OPC UA part. -/
theorem Visit.processPlcTagGroup_apart (env : PlcEnv) : v.Apart (v.processPlcTagGroup env) := by
  refine .of_append ⟨rfl, rfl, rfl, id⟩ rfl rfl fun c hc => ?_
  obtain ⟨out, hout, hc⟩ := List.mem_flatMap.mp hc
  obtain ⟨tagName, tag, -, rfl⟩ := mem_outs _ hout
  obtain ⟨r, rfl⟩ := pollPlcTag_calls env v.group tagName tag c hc
  rfl

theorem Visit.pollAdsTags_apart (env : AdsEnv) (impl : AdsTagGroupImpl) :
    v.Apart (v.pollAdsTags env impl) := by
  refine .of_append ⟨rfl, rfl, rfl, id⟩ rfl rfl fun c hc => ?_
  obtain ⟨out, hout, hc⟩ := List.mem_flatMap.mp hc
  obtain ⟨tagName, tag, -, rfl⟩ := mem_outs _ hout
  rw [(pollAdsTag_turn env tagName tag).calls] at hc
  cases hc

/-- A poll of an ADS group leaves the OPC UA part. -/
theorem Visit.processAdsTagGroup_apart (env : AdsEnv) : v.Apart (v.processAdsTagGroup env) := by
  rcases processAdsTagGroup_cases env v with
    ⟨impl, -, -, hpoll⟩ | ⟨-, ⟨-, hpoll⟩ | ⟨ok, v', -, rfl, hpoll⟩⟩
  · rw [hpoll]
    exact v.pollAdsTags_apart env impl
  · rw [hpoll]
    exact v.withGroup_apart ⟨rfl, rfl, rfl, id⟩
  · have hmade := v.ads_apart.trans (v.ads.2.withGroup_apart
      (g := { v.ads.2.group with adsImpl := some (v.ads.1.anew ok) }) ⟨rfl, rfl, rfl, id⟩)
    rw [hpoll]
    split
    · exact hmade.trans (Visit.pollAdsTags_apart _ env _)
    · exact hmade

theorem Visit.pollMqttTags_apart (env : MqttEnv) (impl : MqttTagGroupImpl) :
    v.Apart (v.pollMqttTags env impl) := by
  refine .of_append ⟨rfl, rfl, rfl, id⟩ rfl rfl fun c hc => ?_
  obtain ⟨out, hout, hc⟩ := List.mem_flatMap.mp hc
  obtain ⟨tagName, tag, -, rfl⟩ := mem_outs _ hout
  rw [(pollMqttTag_turn env tagName tag).calls] at hc
  cases hc

theorem connect_ownSession (env : MqttEnv) (g : TagGroup V) (client : Nat)
    (impl : MqttTagGroupImpl) :
    ∀ c ∈ (impl.connect env g client).2, c.ownSession = true := by
  have hdestroyed := ownSession_releases (V := V) (impl.client.toList.map .mqttClient)
  have happend : ∀ calls : List (LibCall V), (∀ c ∈ calls, c.ownSession = true) →
      ∀ c ∈ releases (impl.client.toList.map .mqttClient) ++ calls, c.ownSession = true :=
    fun calls h c hc => (List.mem_append.mp hc).elim (hdestroyed c) (h c)
  unfold MqttTagGroupImpl.connect
  simp only
  split
  · exact hdestroyed
  split
  · exact hdestroyed
  split
  · exact happend _ (ownSession_acquire _)
  · refine happend _ (List.forall_mem_cons.mpr ⟨rfl, List.forall_mem_cons.mpr ⟨rfl, ?_⟩⟩)
    exact fun c hc => absurd hc List.not_mem_nil

theorem Visit.initMqttClient_apart (env : MqttEnv) : v.Apart (v.initMqttClient env).2 :=
  v.mqtt_apart.trans (.of_append ⟨rfl, rfl, rfl, id⟩ rfl rfl (connect_ownSession _ _ _ _))

theorem mqttDisconnected_apart (g : TagGroup V) : g.Apart g.mqttDisconnected := by
  unfold TagGroup.mqttDisconnected
  split
  · exact ⟨rfl, rfl, rfl, id⟩
  · exact ⟨rfl, rfl, rfl, id⟩

/-- A poll of an MQTT group leaves the OPC UA part. -/
theorem Visit.processMqttTagGroup_apart (env : MqttEnv) : v.Apart (v.processMqttTagGroup env) := by
  rcases processMqttTagGroup_cases env v with
    ⟨impl, -, -, hpoll⟩ | ⟨-, ok, v', impl, hinit, -, hpoll⟩
  · rw [hpoll]
    exact v.pollMqttTags_apart env impl
  · have hmade : v.Apart v' := by
      have happart := (v.withGroup_apart (mqttDisconnected_apart v.group)).trans
        (Visit.initMqttClient_apart _ env)
      rw [hinit] at happart
      exact happart
    rw [hpoll]
    split
    · exact hmade.trans (Visit.pollMqttTags_apart _ env _)
    · exact hmade

theorem compile_ownSession (env : SoftPlcEnv V) (gateway : CStr) (impl : SoftPlcTagGroupImpl V) :
    ∀ c ∈ (impl.compile env gateway).2.2, c.ownSession = true := by
  unfold SoftPlcTagGroupImpl.compile
  split
  · exact fun c hc => absurd hc List.not_mem_nil
  split
  · exact fun c hc => absurd hc List.not_mem_nil
  simp only
  split
  · exact fun c hc => absurd hc List.not_mem_nil
  split
  · exact List.forall_mem_cons.mpr ⟨rfl, fun c hc => absurd hc List.not_mem_nil⟩
  · refine List.forall_mem_cons.mpr ⟨rfl, List.forall_mem_cons.mpr ⟨rfl, ?_⟩⟩
    exact fun c hc => absurd hc List.not_mem_nil

/-- A poll of a soft PLC group leaves the OPC UA part. -/
theorem Visit.processSoftPlcTagGroup_apart (env : SoftPlcEnv V) :
    v.Apart (v.processSoftPlcTagGroup env) := by
  unfold Visit.processSoftPlcTagGroup
  split
  · exact v.withGroup_apart ⟨rfl, rfl, rfl, id⟩
  · rename_i impl _
    have hcompile := compile_ownSession env v.group.gateway impl
    split
    · rename_i hcompiled
      rw [hcompiled] at hcompile
      exact .of_append ⟨rfl, rfl, rfl, id⟩ rfl rfl hcompile
    · rename_i hcompiled
      rw [hcompiled] at hcompile
      exact .of_append ⟨rfl, rfl, rfl, id⟩ rfl rfl hcompile
    · rename_i hcompiled
      rw [hcompiled] at hcompile
      refine .of_append ⟨rfl, rfl, rfl, id⟩ rfl rfl fun c hc => ?_
      rcases List.mem_append.mp hc with hc | hc
      · exact hcompile c hc
      · rw [List.mem_singleton.mp hc]
        rfl

/-! ## What happens whatever the backend -/

theorem Visit.read_apart (tagName : CStr) (ty : Comms.TagType) :
    v.Apart (v.withGroup (v.group.readTag tagName ty)) := by
  rcases readTag_cases v.group tagName ty with hread | hread
  · rw [hread]
    exact v.withGroup_apart ⟨rfl, rfl, rfl, id⟩
  · rw [hread]
    exact v.withGroup_apart ⟨rfl, rfl, rfl, id⟩

theorem Visit.message_apart (topic : CStr) (payload : List UInt8) :
    v.Apart (v.withGroup (v.group.mqttMessageArrived topic payload)) := by
  rcases mqttMessageArrived_cases v.group topic payload with hsame | ⟨impl, tag, -, -, hnew⟩
  · rw [hsame]
    exact v.withGroup_apart ⟨rfl, rfl, rfl, id⟩
  · rw [hnew]
    exact v.withGroup_apart ⟨rfl, rfl, rfl, id⟩

theorem Visit.setSoftPlcProgram_apart (source : CStr) : v.Apart (v.setSoftPlcProgram source) :=
  v.softPlc_apart.trans (Visit.withGroup_apart _ ⟨rfl, rfl, rfl, id⟩)

theorem Visit.setSoftPlcWatchEnabled_apart (enabled : Bool) :
    v.Apart (v.setSoftPlcWatchEnabled enabled) :=
  v.softPlc_apart.trans (Visit.withGroup_apart _ ⟨rfl, rfl, rfl, id⟩)

theorem Visit.frame_apart (delta startupTimer : Int) :
    v.Apart (v.withGroup (v.group.frame delta startupTimer)) :=
  v.withGroup_apart ⟨rfl, rfl, rfl, fun h => (Bool.and_eq_true_iff.mp h).1⟩

/-! ## Groups that are not OPC UA's -/

/-- A poll of a group of another protocol leaves the OPC UA part. -/
theorem Visit.processTagGroup_apart (h : v.group.protocol ≠ .opcUa) (env : Env V) :
    v.Apart (v.processTagGroup env) := by
  unfold Visit.processTagGroup
  split
  · exact v.withGroup_apart ⟨rfl, rfl, rfl, id⟩
  · cases hprotocol : v.group.protocol with
    | opcUa => exact absurd hprotocol h
    | ads => exact v.processAdsTagGroup_apart env.ads
    | rtde => exact v.ofRtde_apart _
    | mqtt => exact v.processMqttTagGroup_apart env.mqtt
    | softPlc => exact v.processSoftPlcTagGroup_apart env.softPlc
    | s7 | plctag name => exact v.processPlcTagGroup_apart env.plc

/-- A tag registered with a group of another protocol leaves the OPC UA part. -/
theorem Visit.registerTag_apart (h : v.group.protocol ≠ .opcUa) (tagName : CStr)
    (ty : Comms.TagType) : v.Apart (v.registerTag tagName ty).2 := by
  unfold Visit.registerTag
  cases hprotocol : v.group.protocol with
  | opcUa => exact absurd hprotocol h
  | ads => exact v.ads_apart.trans (Visit.withGroup_apart _ ⟨rfl, rfl, rfl, id⟩)
  | rtde => exact v.ofRtde_apart _
  | mqtt =>
    simp only
    split
    · exact v.withGroup_apart ⟨rfl, rfl, rfl, id⟩
    · exact v.mqtt_apart.trans (Visit.withGroup_apart _ ⟨rfl, rfl, rfl, id⟩)
  | softPlc => exact v.softPlc_apart.trans (Visit.withGroup_apart _ ⟨rfl, rfl, rfl, id⟩)
  | s7 | plctag name => exact v.withGroup_apart ⟨rfl, rfl, rfl, id⟩

/-- A write to a group of another protocol leaves the OPC UA part. -/
theorem Visit.processWrite_apart [Rtde.GodotVariant V] (h : v.group.protocol ≠ .opcUa)
    (env : WriteEnv) (w : Comms.WriteRequest V) : v.Apart (v.processWrite env w) := by
  unfold Visit.processWrite
  split
  · rename_i hprotocol _
    exact absurd hprotocol h
  · exact v.ofRtde_apart _
  · obtain ⟨impl, hset⟩ := softPlcSet_group v.group w.tagName w.value
    rw [hset]
    exact v.withGroup_apart ⟨rfl, rfl, rfl, id⟩
  all_goals exact v.withGroup_apart ⟨rfl, rfl, rfl, id⟩

/-- The clean-up of a group of another protocol leaves the OPC UA part. -/
theorem Visit.cleanup_apart (h : v.group.protocol ≠ .opcUa) : v.Apart v.cleanup := by
  have hrelease : v.Apart v.release := by
    unfold Visit.release
    cases hprotocol : v.group.protocol with
    | opcUa => exact absurd hprotocol h
    | ads | rtde | mqtt | softPlc | s7 | plctag name =>
      exact .of_append ⟨rfl, rfl, rfl, id⟩ rfl rfl (ownSession_releases _)
  exact hrelease.trans (Visit.withGroup_apart _ ⟨rfl, rfl, rfl, id⟩)

/-- Whatever happens to a group of another protocol leaves its OPC UA part. -/
theorem Visit.apply_apart [Rtde.GodotVariant V] (h : v.group.protocol ≠ .opcUa) (op : GroupOp V) :
    v.Apart (v.apply op) := by
  cases op with
  | registerTag tagName ty =>
    show v.Apart (if _ then v else _)
    split
    · exact v.withGroup_apart ⟨rfl, rfl, rfl, id⟩
    · exact v.registerTag_apart h tagName ty
  | poll env => exact v.processTagGroup_apart h env
  | write env w => exact v.processWrite_apart h env w
  | read tagName ty => exact v.read_apart tagName ty
  | message topic payload => exact v.message_apart topic payload
  | setSoftPlcProgram source => exact v.setSoftPlcProgram_apart source
  | setSoftPlcWatchEnabled enabled => exact v.setSoftPlcWatchEnabled_apart enabled
  | frame delta startupTimer => exact v.frame_apart delta startupTimer
  | cleanup => exact v.cleanup_apart h

end

end OipComms.Backend
