import OipComms.Backend.Counting

/-!
# What a clean poll serves

Five backends look at every tag in every poll. The RTDE backend builds everything once in a session:
a tag that is registered while the session runs is in no recipe, and no poll says so.
-/

namespace OipComms.Backend

open Comms (Protocol)
open Run Sweep

variable {V : Type}

/-- The link of the backend is up in a poll: it is up before, or can be made. libplctag and an RTDE
session have no answer of their own to that. -/
def TagGroup.LinkUp (g : TagGroup V) (env : Env V) : Prop :=
  match g.protocol with
  | .opcUa => g.opcUaClientConnected env.ua.stateGood = true ∨ env.ua.connect = .good
  | .ads =>
    g.adsDeviceConnected = true ∨ env.ads.dllAvailable = true ∧ g.adsReachable env.ads = true
  | .mqtt => g.mqttClientConnected env.mqtt.isConnected = true ∨ g.mqttReachable env.mqtt = true
  | .s7 => ∀ tagPointer, env.plc.s7TagConnected tagPointer = true
  | .rtde | .softPlc | .plctag _ => True

/-- A poll of one of the six backends with the link up, without an error before or after it, that
stops no simulation and invalidates no session. -/
structure CleanPoll (v : Visit V) (env : Env V) : Prop where
  protocol : v.group.protocol ≠ .softPlc
  before : v.group.hasError = false
  after : (v.processTagGroup env).group.hasError = false
  link : v.group.LinkUp env
  runs : (v.processTagGroup env).stops = false
  valid : (v.processTagGroup env).invalidated = false

/-- Every tag of the first group is initialised in the second. -/
def TagGroup.Serves (g g' : TagGroup V) : Prop :=
  ∀ tagName ∈ g.status, g'.status[tagName]? = some true

/-- A tag that was registered after the RTDE session which still runs was set up. -/
def TagGroup.lateTag (g : TagGroup V) : Bool :=
  g.protocol = .rtde && Rtde.rtdeSessionStarted g.toRtde &&
    g.toRtde.tags.toList.any fun x => !x.2.initialized

/-! ## Sweeps -/

/-- Every key of the first map has in the second an entry that satisfies the test. -/
def AllServed {α β : Type} (p : β → Bool) (m : Std.ExtTreeMap CStr α) (m' : Std.ExtTreeMap CStr β) :
    Prop :=
  ∀ k ∈ m, ∃ b, m'[k]? = some b ∧ p b = true

/-- All tags are served if the status of each says so. -/
theorem AllServed.iff_status {α β γ : Type} {p : β → Bool} {f : CStr → α → γ}
    {m : Std.ExtTreeMap CStr α} {m' : Std.ExtTreeMap CStr β} :
    AllServed p m m' ↔ ∀ k ∈ m.map f, (m'.map fun _ b => p b)[k]? = some true := by
  refine forall_congr' fun k => ?_
  rw [Std.ExtTreeMap.mem_map, Std.ExtTreeMap.getElem?_map, Option.map_eq_some_iff]

/-- A sweep in which no turn does what ends it serves every entry. -/
theorem served_of_sweep {τ : Type} {f : CStr → τ → Swept τ (Effect V)} {p : τ → Bool}
    (ends : Effect V → Bool) {m : Std.ExtTreeMap CStr τ}
    (hends : ∀ k a, (f k a).goes = false → ends (f k a).out = true)
    (hturn : ∀ k a, (f k a).goes = true → p (f k a).entry = true)
    (hno : (sweep f m).outs.any ends = false) : AllServed p m (sweep f m).entries :=
  fun _ hk => exists_of_completes f (completes_of_no_end f hends hno) hturn hk

/-! ## The five that look at every tag -/

section
variable {v : Visit V}

/-- A poll of libplctag or S7 that ends without an error serves all tags. -/
theorem served_processPlcTagGroup {env : PlcEnv}
    (hafter : (v.processPlcTagGroup env).group.hasError = false)
    (hlink : v.group.protocol = .s7 → ∀ tagPointer, env.s7TagConnected tagPointer = true) :
    AllServed (plcTagInitialized v.group.protocol) v.group.plcTags
      (v.processPlcTagGroup env).group.plcTags := by
  have hfailed : (sweep (pollPlcTag env v.group) v.group.plcTags).outs.any Effect.failed = false :=
    (Bool.or_eq_false_iff.mp hafter).2
  refine served_of_sweep Effect.failed (fun k a hgoes => ?_) (fun k a hgoes => ?_) hfailed
  · rw [(pollPlcTag_ends env v.group k a).1, hgoes]
    rfl
  · exact pollPlcTag_initializes env v.group k a hgoes hlink

theorem served_pollOpcUaTags {env : UaEnv} {client : Nat}
    (hruns : (v.pollOpcUaTags env client).stops = false)
    (hvalid : (v.pollOpcUaTags env client).invalidated = false) :
    AllServed OpcUaTag.initialized v.group.opcUaTags
      (v.pollOpcUaTags env client).group.opcUaTags := by
  unfold Visit.pollOpcUaTags at hruns hvalid ⊢
  simp only at hruns hvalid ⊢
  by_cases hdead : (sweep (pollOpcUaTag (V := V) env client) v.group.opcUaTags).outs.any Effect.dead = true
  · rw [if_pos hdead] at hvalid
    cases hvalid
  · rw [if_neg hdead] at hruns ⊢
    have hstops : (sweep (pollOpcUaTag env client) v.group.opcUaTags).outs.any Effect.stops =
        false := (Bool.or_eq_false_iff.mp hruns).2
    refine served_of_sweep (fun out => out.dead || out.stops) (fun k a hgoes => ?_)
      (fun k a => (pollOpcUaTag_turn env client k a).initializes) ?_
    · rw [(pollOpcUaTag_turn env client k a).ends, Bool.not_eq_false'] at hgoes
      exact hgoes
    · refine List.any_eq_false.mpr fun out hout => ?_
      rw [Bool.or_eq_true, not_or]
      exact ⟨List.any_eq_false.mp (Bool.eq_false_iff.mpr hdead) out hout,
        List.any_eq_false.mp hstops out hout⟩

/-- A poll of an OPC UA group that comes to its end serves all tags. -/
theorem served_processOpcUaTagGroup {env : UaEnv}
    (hlink : v.group.opcUaClientConnected env.stateGood = true ∨ env.connect = .good)
    (hruns : (v.processOpcUaTagGroup env).stops = false)
    (hvalid : (v.processOpcUaTagGroup env).invalidated = false) :
    AllServed OpcUaTag.initialized v.group.opcUaTags
      (v.processOpcUaTagGroup env).group.opcUaTags := by
  rcases processOpcUaTagGroup_cases env v with ⟨client, -, -, hpoll⟩ | ⟨hno, hpoll⟩
  · rw [hpoll] at hruns hvalid ⊢
    exact served_pollOpcUaTags hruns hvalid
  · have hgood : env.connect = .good :=
      hlink.resolve_left fun hyes => absurd (hno.symm.trans hyes) Bool.false_ne_true
    have htags : (v.initOpcUaClient env).2.group.opcUaTags = v.group.opcUaTags := by
      rw [v.initOpcUaClient_group env]
    rw [hpoll, if_pos hgood] at hruns hvalid ⊢
    rw [← htags]
    exact served_pollOpcUaTags hruns hvalid

theorem served_pollAdsTags {env : AdsEnv} {impl : AdsTagGroupImpl}
    (hafter : (v.pollAdsTags env impl).group.hasError = false) :
    AllServed AdsTagEntry.initialized impl.tags (v.pollAdsTags env impl).group.adsTags := by
  have hfailed : (sweep (pollAdsTag (V := V) env) impl.tags).outs.any Effect.failed = false :=
    (Bool.or_eq_false_iff.mp hafter).2
  refine served_of_sweep Effect.failed (fun k a hgoes => ?_)
    (fun k a => (pollAdsTag_turn env k a).initializes) hfailed
  rw [(pollAdsTag_turn env k a).ends, hgoes]
  rfl

/-- A poll of an ADS group that ends without an error serves all tags. -/
theorem served_processAdsTagGroup {env : AdsEnv}
    (hlink : v.group.adsDeviceConnected = true ∨
      env.dllAvailable = true ∧ v.group.adsReachable env = true)
    (hafter : (v.processAdsTagGroup env).group.hasError = false) :
    AllServed AdsTagEntry.initialized v.group.adsTags
      (v.processAdsTagGroup env).group.adsTags := by
  rcases processAdsTagGroup_cases env v with
    ⟨impl, himpl, -, hpoll⟩ | ⟨hno, hcase⟩
  · have htags : v.group.adsTags = impl.tags := by
      rw [TagGroup.adsTags, himpl]
      rfl
    rw [hpoll] at hafter ⊢
    rw [htags]
    exact served_pollAdsTags hafter
  · obtain ⟨hdll, hreachable⟩ :=
      hlink.resolve_left fun hyes => absurd (hno.symm.trans hyes) Bool.false_ne_true
    rcases hcase with ⟨hnone, -⟩ | ⟨ok, v', hok, -, hpoll⟩
    · exact absurd (hnone.symm.trans hdll) Bool.false_ne_true
    · rw [hpoll, hok, hreachable, if_pos rfl] at hafter ⊢
      intro k hk
      rw [← v.ads_tags] at hk
      exact served_pollAdsTags hafter k (Std.ExtTreeMap.mem_map.mpr hk)

theorem served_pollMqttTags {env : MqttEnv} {impl : MqttTagGroupImpl}
    (hafter : (v.pollMqttTags env impl).group.hasError = false) :
    AllServed MqttTagEntry.subscribed impl.tags (v.pollMqttTags env impl).group.mqttTags := by
  have hfailed : (sweep (pollMqttTag (V := V) env) impl.tags).outs.any Effect.failed = false :=
    (Bool.or_eq_false_iff.mp hafter).2
  refine served_of_sweep Effect.failed (fun k a hgoes => ?_)
    (fun k a => (pollMqttTag_turn env k a).initializes) hfailed
  rw [(pollMqttTag_turn env k a).ends, hgoes]
  rfl

/-- A poll of an MQTT group that ends without an error serves all tags. -/
theorem served_processMqttTagGroup {env : MqttEnv}
    (hlink : v.group.mqttClientConnected env.isConnected = true ∨
      v.group.mqttReachable env = true)
    (hafter : (v.processMqttTagGroup env).group.hasError = false) :
    AllServed MqttTagEntry.subscribed v.group.mqttTags
      (v.processMqttTagGroup env).group.mqttTags := by
  rcases processMqttTagGroup_cases env v with
    ⟨impl, himpl, -, hpoll⟩ | ⟨hno, ok, v', impl, hinit, himpl, hpoll⟩
  · have htags : v.group.mqttTags = impl.tags := by
      rw [TagGroup.mqttTags, himpl]
      rfl
    rw [hpoll] at hafter ⊢
    rw [htags]
    exact served_pollMqttTags hafter
  · have hreachable : v.group.mqttReachable env = true :=
      hlink.resolve_left fun hyes => absurd (hno.symm.trans hyes) Bool.false_ne_true
    have hgroup := (v.withGroup v.group.mqttDisconnected).initMqttClient_group env
    have hok := (v.withGroup v.group.mqttDisconnected).initMqttClient_ok env
    have hsame : (v.withGroup v.group.mqttDisconnected).group.mqttReachable env =
        v.group.mqttReachable env := by
      obtain ⟨_, _, _, hdisconnected⟩ := mqttDisconnected_group v.group
      simp only [Visit.withGroup, hdisconnected]
      rfl
    rw [hinit] at hgroup hok
    rw [hsame, hreachable] at hok
    obtain rfl : ok = true := hok rfl
    have himpl' : v'.group.mqttImpl = some impl := himpl
    rw [hgroup] at himpl'
    rw [hpoll, if_pos rfl] at hafter ⊢
    intro k hk
    refine served_pollMqttTags hafter k ?_
    rw [← Option.some.inj himpl', connect_tags, MqttTagGroupImpl.dropped, Std.ExtTreeMap.mem_map,
      Visit.mqtt_tags]
    exact (mem_mqttDisconnected v.group k).mpr hk

end

/-! ## The one that does not -/

/-- The tags are served if none is left that is not initialised. -/
theorem served_of_all {tags : Rtde.TagMap} :
    AllServed Rtde.RtdeTagEntry.initialized tags tags ↔
      (tags.toList.any fun x => !x.2.initialized) = false := by
  rw [List.any_eq_false]
  constructor
  · rintro hserved ⟨name, e⟩ hmem
    have hget := Std.ExtTreeMap.mem_toList_iff_getElem?_eq_some.mp hmem
    obtain ⟨e', hget', he'⟩ := hserved name (Std.ExtTreeMap.mem_iff_isSome_getElem?.mpr
      (Option.isSome_iff_exists.mpr ⟨e, hget⟩))
    obtain rfl := Option.some.inj (hget.symm.trans hget')
    rw [he']
    exact Bool.false_ne_true
  · intro hall name hmem
    have hget := Std.ExtTreeMap.getElem?_eq_some_getElem hmem
    refine ⟨_, hget, ?_⟩
    have hno := hall (name, tags[name]) (Std.ExtTreeMap.mem_toList_iff_getElem?_eq_some.mpr hget)
    exact Bool.not_eq_false _ |>.mp fun hfalse => hno (by rw [hfalse]; rfl)

/-- A poll of an RTDE group that ends without an error leaves every tag initialised, unless it finds
the session running with a tag that is not. -/
theorem served_processRtdeTagGroup (connect : CStr → Except String Rtde.Socket)
    {g : Rtde.TagGroup} (hafter : (Rtde.processRtdeTagGroup connect g).hasError = false) :
    AllServed Rtde.RtdeTagEntry.initialized g.tags (Rtde.processRtdeTagGroup connect g).tags ↔
      (Rtde.rtdeSessionStarted g && g.tags.toList.any fun x => !x.2.initialized) = false := by
  have hkept : ∀ {g : Rtde.TagGroup}, Rtde.rtdeSessionStarted g = true →
      (Rtde.processRtdeTagGroup connect g).tags = g.tags := by
    intro g hsession
    obtain ⟨impl, himpl, hstarted, hopen⟩ := Rtde.sessionStarted_iff.mp hsession
    obtain ⟨impl', hasError, hpolled, htags, -⟩ :=
      Rtde.pollSession_spec connect himpl hstarted hopen
    rw [hpolled, Rtde.TagGroup.tags, Rtde.TagGroup.tags, himpl]
    exact htags
  cases hsession : Rtde.rtdeSessionStarted g with
  | true =>
    rw [hkept hsession, Bool.true_and]
    exact served_of_all
  | false =>
    refine iff_of_true ?_ rfl
    rcases Rtde.processRtdeTagGroup_unstarted connect hsession with
      ⟨impl, hfailed, -⟩ | ⟨hs, hpolled, hstarted⟩
    · rw [hfailed] at hafter
      cases hafter
    · rw [hpolled, hkept hstarted]
      intro name hmem
      have hget := Std.ExtTreeMap.getElem?_eq_some_getElem ((hs.mem_tags name).mpr hmem)
      exact ⟨_, hget, hs.all_initialized name _ hget⟩

/-! ## Polls -/

/-- The tags of a group by its protocol. -/
theorem serves_iff {g g' : TagGroup V} (hprotocol : g'.protocol = g.protocol)
    (hsoft : g.protocol ≠ .softPlc) :
    g.Serves g' ↔
      match g.protocol with
      | .opcUa => AllServed OpcUaTag.initialized g.opcUaTags g'.opcUaTags
      | .ads => AllServed AdsTagEntry.initialized g.adsTags g'.adsTags
      | .rtde => AllServed Rtde.RtdeTagEntry.initialized g.toRtde.tags g'.toRtde.tags
      | .mqtt => AllServed MqttTagEntry.subscribed g.mqttTags g'.mqttTags
      | .softPlc => True
      | .s7 | .plctag _ => AllServed (plcTagInitialized g.protocol) g.plcTags g'.plcTags := by
  unfold TagGroup.Serves TagGroup.status
  rw [hprotocol]
  cases hp : g.protocol with
  | softPlc => exact absurd hp hsoft
  | opcUa | ads | rtde | mqtt | s7 | plctag name => exact AllServed.iff_status.symm

/-- A clean poll leaves every tag initialised if and only if no tag came too late for the session. -/
theorem CleanPoll.serves_iff {v : Visit V} {env : Env V} (h : CleanPoll v env) :
    v.group.Serves (v.processTagGroup env).group ↔ v.group.lateTag = false := by
  obtain ⟨hsoft, hbefore, hafter, hlink, hruns, hvalid⟩ := h
  rw [Backend.serves_iff (v.processTagGroup_protocol env) hsoft]
  have hlate : ∀ {protocol}, v.group.protocol = protocol → protocol ≠ .rtde →
      v.group.lateTag = false := by
    intro protocol hprotocol hno
    rw [TagGroup.lateTag, hprotocol, decide_eq_false hno]
    rfl
  unfold TagGroup.LinkUp at hlink
  unfold Visit.processTagGroup at hafter hruns hvalid ⊢
  simp only [hbefore, Bool.false_eq_true, if_false] at hafter hruns hvalid ⊢
  cases hprotocol : v.group.protocol with
  | opcUa =>
    simp only [hprotocol] at hlink hruns hvalid ⊢
    exact iff_of_true (served_processOpcUaTagGroup hlink hruns hvalid)
      (hlate hprotocol Comms.Protocol.noConfusion)
  | ads =>
    simp only [hprotocol] at hlink hafter ⊢
    exact iff_of_true (served_processAdsTagGroup hlink hafter)
      (hlate hprotocol Comms.Protocol.noConfusion)
  | mqtt =>
    simp only [hprotocol] at hlink hafter ⊢
    exact iff_of_true (served_processMqttTagGroup hlink hafter)
      (hlate hprotocol Comms.Protocol.noConfusion)
  | rtde =>
    simp only [hprotocol] at hafter ⊢
    have hleft := v.ofRtde_toRtde (Rtde.processRtdeTagGroup env.rtde v.group.toRtde)
    have herror : (Rtde.processRtdeTagGroup env.rtde v.group.toRtde).hasError = false :=
      (congrArg Rtde.TagGroup.hasError hleft).symm.trans hafter
    rw [congrArg Rtde.TagGroup.tags hleft, TagGroup.lateTag, hprotocol]
    exact served_processRtdeTagGroup env.rtde herror
  | softPlc => exact absurd hprotocol hsoft
  | s7 =>
    simp only [hprotocol] at hlink hafter ⊢
    have hserved := served_processPlcTagGroup hafter fun _ => hlink
    rw [hprotocol] at hserved
    exact iff_of_true hserved (hlate hprotocol Comms.Protocol.noConfusion)
  | plctag name =>
    simp only [hprotocol] at hafter ⊢
    have hserved := served_processPlcTagGroup hafter fun hs7 =>
      Comms.Protocol.noConfusion (hprotocol.symm.trans hs7)
    rw [hprotocol] at hserved
    exact iff_of_true hserved (hlate hprotocol Comms.Protocol.noConfusion)

/-! ## Runs -/

section
variable [Rtde.GodotVariant V]

/-- The clean polls of a step leave initialised what was registered before them. -/
def CleanPollsServe (m : Machine V) (l : Label V) : Prop :=
  ∀ x ∈ m.changed l, ∀ env, x.2.2 = .poll env →
    CleanPoll { group := x.2.1, next := m.comms.next } env →
      x.2.1.Serves (x.2.1.after m.comms.next (.poll env)).group

/-- No clean poll of the step finds an RTDE session running with a tag that is not initialised. -/
def CleanPollsInTime (m : Machine V) (l : Label V) : Prop :=
  ∀ x ∈ m.changed l, ∀ env, x.2.2 = .poll env →
    CleanPoll { group := x.2.1, next := m.comms.next } env → x.2.1.lateTag = false

/-- In a run, every clean poll leaves initialised what was registered before it if and only if none
finds an RTDE session running with a tag that is not initialised. -/
theorem clean_polls_serve_iff (ops : List (Label V)) :
    Meets Machine.step CleanPollsServe ({} : Machine V) ops ↔
      Meets Machine.step CleanPollsInTime ({} : Machine V) ops := by
  refine meets_iff_meets Machine.step (J := fun _ => True) (fun _ _ _ => trivial) ?_ trivial ops
  intro m l _
  refine forall₂_congr fun x _ => forall₂_congr fun env _ => forall_congr' fun hclean => ?_
  exact hclean.serves_iff

end

/-- An RTDE session that is set up by the first poll, a tag registered after it, and a second poll. -/
def registeredLate : List (Label Bool) :=
  started "g".toList .rtde "output_bits[3]".toList ++
    frameAndPoll 100000 { rtde := fun _ => .ok Rtde.bitsSocket } ++
    [.call (.registerTag "g".toList "output_bits[4]".toList .bool)] ++
    frameAndPoll 200000 {}

/-- The second poll is clean, and does not serve the tag. -/
theorem late_tag_not_served : ¬ Meets Machine.step CleanPollsServe ({} : Machine Bool)
    registeredLate := by
  intro h
  have hpoll := (meets_iff_split Machine.step CleanPollsServe _ registeredLate).mp h
    (registeredLate.take 11) (.work {} {}) [] rfl
  generalize hm : run Machine.step ({} : Machine Bool) (registeredLate.take 11) = m at hpoll
  have hchanged : m.changed (.work {} {}) = [("g".toList, m.comms.group "g".toList, .poll {})] := by
    rw [← hm]
    rfl
  have hserves := hpoll _ (by rw [hchanged]; exact List.mem_cons_self) {} rfl
  have hclean : CleanPoll { group := m.comms.group "g".toList, next := m.comms.next } {} := by
    rw [← hm]
    exact ⟨by decide, by decide, by decide, trivial, by decide, by decide⟩
  have hlate : (m.comms.group "g".toList).lateTag = true := by
    rw [← hm]
    decide
  exact absurd ((hclean.serves_iff.mp (hserves hclean)).symm.trans hlate) Bool.false_ne_true

end OipComms.Backend
