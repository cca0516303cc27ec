import OipComms.Backend.System
import OipComms.Rtde.Count

/-!
# The count of the initialised tags

Six backends count in different places, and three of them set the flags of all tags back without a
look at `init_count`. `Counted` is what a group keeps whatever happens to it: the count is right, and
where the flags are set back, none is set.
-/

namespace OipComms.Backend

open Comms (TagType Protocol)
open Run Sweep

variable {V : Type}

/-- The program of a group is compiled. -/
def TagGroup.compiled (g : TagGroup V) : Bool := g.softPlcImpl.any SoftPlcTagGroupImpl.initialized

/-- The tags of a group, each with whether it is initialised in the sense of its backend. -/
def TagGroup.status (g : TagGroup V) : Std.ExtTreeMap CStr Bool :=
  match g.protocol with
  | .opcUa => g.opcUaTags.map fun _ tag => tag.initialized
  | .ads => g.adsTags.map fun _ tag => tag.initialized
  | .rtde => g.toRtde.tags.map fun _ e => e.initialized
  | .mqtt => g.mqttTags.map fun _ tag => tag.subscribed
  | .softPlc => g.softPlcTags.map fun _ _ => g.compiled
  | .s7 | .plctag _ => g.plcTags.map fun _ tag => plcTagInitialized g.protocol tag

/-- How many tags of a group are initialised. -/
def TagGroup.initialisedCount (g : TagGroup V) : Nat := count id g.status

/-- What every group keeps. -/
def TagGroup.Counted (g : TagGroup V) : Prop :=
  match g.protocol with
  | .opcUa => g.initCount = count OpcUaTag.initialized g.opcUaTags
  | .ads => g.initCount = count AdsTagEntry.initialized g.adsTags ∧
      (g.adsDeviceConnected = false → g.initCount = 0)
  | .rtde => g.toRtde.Counted
  | .mqtt => g.initCount = count MqttTagEntry.subscribed g.mqttTags
  | .softPlc => True
  | .s7 | .plctag _ => g.initCount = count (plcTagInitialized g.protocol) g.plcTags

/-- The count of a map that was changed. -/
theorem count_map {α β : Type} (p : β → Bool) (f : CStr → α → β) (m : Std.ExtTreeMap CStr α) :
    count p (m.map f) = total (fun k a => weight p k (f k a)) m := by
  rw [count_eq_total, total_map]

/-- The entries, each with its own answer to the test. -/
theorem count_id_map {α : Type} (p : α → Bool) (m : Std.ExtTreeMap CStr α) :
    count id (m.map fun _ a => p a) = count p m := by
  rw [count_map, count_eq_total]
  rfl

/-- A new entry that does not satisfy the test. -/
theorem count_insert_new {α : Type} {p : α → Bool} {m : Std.ExtTreeMap CStr α} {k : CStr}
    (hnew : m[k]? = none) {a : α} (ha : p a = false) : count p (m.insert k a) = count p m := by
  rw [count_eq_total, total_insert_new _ hnew, weight, ha, count_eq_total]
  exact Nat.zero_add _

/-- An entry changed in what the test does not look at, or a new one that does not satisfy it. -/
theorem count_insert_same {α : Type} {p : α → Bool} {m : Std.ExtTreeMap CStr α} {k : CStr}
    (a : α) (hsame : ∀ a', m[k]? = some a' → p a = p a') (hnew : m[k]? = none → p a = false) :
    count p (m.insert k a) = count p m := by
  cases hget : m[k]? with
  | none => exact count_insert_new hget (hnew hget)
  | some a' =>
    rw [count_eq_total, total_replace_same _ hget, count_eq_total]
    rw [weight, weight, hsame a' hget]

/-- Where the count is right, it is that of the initialised tags. -/
theorem initialisedCount_eq {g : TagGroup V} (h : g.Counted) (hsoft : g.protocol ≠ .softPlc) :
    g.initCount = g.initialisedCount := by
  unfold TagGroup.Counted at h
  unfold TagGroup.initialisedCount TagGroup.status
  cases hprotocol : g.protocol with
  | opcUa =>
    simp only [hprotocol] at h ⊢
    rw [count_id_map, h]
  | ads =>
    simp only [hprotocol] at h ⊢
    rw [count_id_map, h.1]
  | rtde =>
    simp only [hprotocol] at h ⊢
    rw [count_id_map]
    exact h.count
  | mqtt =>
    simp only [hprotocol] at h ⊢
    rw [count_id_map, h]
  | softPlc => exact absurd hprotocol hsoft
  | s7 | plctag name =>
    simp only [hprotocol] at h ⊢
    rw [count_id_map, h]

/-- The count of a group by its protocol. -/
theorem counted_opcUa {g : TagGroup V} (hprotocol : g.protocol = .opcUa) :
    g.Counted ↔ g.initCount = count OpcUaTag.initialized g.opcUaTags := by
  unfold TagGroup.Counted
  rw [hprotocol]

theorem counted_ads {g : TagGroup V} (hprotocol : g.protocol = .ads) :
    g.Counted ↔ g.initCount = count AdsTagEntry.initialized g.adsTags ∧
      (g.adsDeviceConnected = false → g.initCount = 0) := by
  unfold TagGroup.Counted
  rw [hprotocol]

theorem counted_rtde {g : TagGroup V} (hprotocol : g.protocol = .rtde) :
    g.Counted ↔ g.toRtde.Counted := by
  unfold TagGroup.Counted
  rw [hprotocol]

theorem counted_mqtt {g : TagGroup V} (hprotocol : g.protocol = .mqtt) :
    g.Counted ↔ g.initCount = count MqttTagEntry.subscribed g.mqttTags := by
  unfold TagGroup.Counted
  rw [hprotocol]

/-- Of a soft PLC group no count is asked. -/
theorem counted_softPlc {g : TagGroup V} (hprotocol : g.protocol = .softPlc) : g.Counted := by
  unfold TagGroup.Counted
  rw [hprotocol]
  trivial

theorem counted_plc {g : TagGroup V} (hprotocol : isPlc g.protocol = true) :
    g.Counted ↔ g.initCount = count (plcTagInitialized g.protocol) g.plcTags := by
  unfold TagGroup.Counted
  cases hp : g.protocol with
  | s7 | plctag name => exact Iff.rfl
  | opcUa | ads | rtde | mqtt | softPlc =>
    rw [hp] at hprotocol
    cases hprotocol

/-! ## Polls -/

section
variable {v : Visit V}

/-- A poll counts each handle it gets once. -/
theorem counted_processPlcTagGroup (hprotocol : isPlc v.group.protocol = true)
    (h : v.group.Counted) (env : PlcEnv) : (v.processPlcTagGroup env).group.Counted := by
  refine (counted_plc (g := (v.processPlcTagGroup env).group) hprotocol).mpr ?_
  have hsweep := count_sweep (pollPlcTag env v.group) (plcTagInitialized v.group.protocol)
    Effect.counted (m := v.group.plcTags) fun k a _ => (pollPlcTag_law env v.group k a).counts
  rw [← (counted_plc hprotocol).mp h] at hsweep
  exact hsweep

/-- A tag of a dead session is not initialised. -/
theorem OpcUaTag.invalidated_initialized (tag : OpcUaTag) : tag.invalidated.initialized = false := by
  unfold OpcUaTag.invalidated
  split
  · rfl
  · rename_i hno
    exact Bool.eq_false_iff.mpr hno

/-- A session found dead counts nothing. -/
theorem counted_invalidateOpcUaSession (hprotocol : v.group.protocol = .opcUa) :
    v.invalidateOpcUaSession.group.Counted := by
  refine (counted_opcUa (g := v.invalidateOpcUaSession.group) hprotocol).mpr (Eq.symm ?_)
  refine (count_map _ _ _).trans (total_eq_zero _ fun k tag _ => ?_)
  rw [weight, tag.invalidated_initialized]
  rfl

/-- The reads of OPC UA tags count each that becomes initialised. -/
theorem counted_pollOpcUaTags (hprotocol : v.group.protocol = .opcUa) (h : v.group.Counted)
    (env : UaEnv) (client : Nat) : (v.pollOpcUaTags env client).group.Counted := by
  have hsweep := count_sweep (pollOpcUaTag (V := V) env client) OpcUaTag.initialized
    Effect.counted (m := v.group.opcUaTags) fun k a _ => (pollOpcUaTag_turn env client k a).counts
  rw [← (counted_opcUa hprotocol).mp h] at hsweep
  unfold Visit.pollOpcUaTags
  simp only
  split
  · exact counted_invalidateOpcUaSession hprotocol
  · refine (counted_opcUa ?_).mpr ?_
    · exact hprotocol
    · exact hsweep

theorem counted_processOpcUaTagGroup (hprotocol : v.group.protocol = .opcUa) (h : v.group.Counted)
    (env : UaEnv) : (v.processOpcUaTagGroup env).group.Counted := by
  have hinit := v.initOpcUaClient_group env
  have hprotocol' : (v.initOpcUaClient env).2.group.protocol = .opcUa := by
    rw [hinit]
    exact hprotocol
  have hkept : (v.initOpcUaClient env).2.group.Counted := by
    refine (counted_opcUa hprotocol').mpr ?_
    rw [hinit]
    exact (counted_opcUa hprotocol).mp h
  rcases processOpcUaTagGroup_cases env v with ⟨client, -, -, hpoll⟩ | ⟨-, hpoll⟩
  · rw [hpoll]
    exact counted_pollOpcUaTags hprotocol h env client
  · rw [hpoll]
    split
    · exact counted_pollOpcUaTags hprotocol' hkept env v.next
    · exact hkept

/-- The reads of ADS tags count each that becomes initialised. -/
theorem counted_pollAdsTags {impl : AdsTagGroupImpl} (hprotocol : v.group.protocol = .ads)
    (hclient : impl.client = true)
    (hcount : v.group.initCount = count AdsTagEntry.initialized impl.tags) (env : AdsEnv) :
    (v.pollAdsTags env impl).group.Counted := by
  have hsweep := count_sweep (pollAdsTag (V := V) env) AdsTagEntry.initialized
    Effect.counted (m := impl.tags) fun k a _ => (pollAdsTag_turn env k a).counts
  rw [← hcount] at hsweep
  refine (counted_ads (g := (v.pollAdsTags env impl).group) hprotocol).mpr ⟨hsweep, fun hno => ?_⟩
  exact absurd (hno.symm.trans hclient) Bool.false_ne_true

theorem counted_processAdsTagGroup (hprotocol : v.group.protocol = .ads) (h : v.group.Counted)
    (env : AdsEnv) : (v.processAdsTagGroup env).group.Counted := by
  obtain ⟨hcount, hnone⟩ := (counted_ads hprotocol).mp h
  rcases processAdsTagGroup_cases env v with
    ⟨impl, himpl, hclient, hpoll⟩ | ⟨hconnected, ⟨-, hpoll⟩ | ⟨ok, v', -, rfl, hpoll⟩⟩
  · rw [hpoll]
    refine counted_pollAdsTags hprotocol hclient ?_ env
    rw [hcount, TagGroup.adsTags, himpl]
    rfl
  · rw [hpoll]
    exact h
  · have hreset : count AdsTagEntry.initialized (v.ads.1.anew ok).tags = 0 :=
      (count_map _ _ _).trans (total_eq_zero _ fun k tag _ => rfl)
    rw [hpoll]
    cases ok with
    | true =>
      exact counted_pollAdsTags hprotocol rfl ((hnone hconnected).trans hreset.symm) env
    | false =>
      refine (counted_ads ?_).mpr ⟨?_, fun _ => ?_⟩
      · exact hprotocol
      · exact (hnone hconnected).trans hreset.symm
      · exact hnone hconnected

/-- The subscriptions of MQTT tags are counted. -/
theorem counted_pollMqttTags {impl : MqttTagGroupImpl} (hprotocol : v.group.protocol = .mqtt)
    (hcount : v.group.initCount = count MqttTagEntry.subscribed impl.tags) (env : MqttEnv) :
    (v.pollMqttTags env impl).group.Counted := by
  have hsweep := count_sweep (pollMqttTag (V := V) env) MqttTagEntry.subscribed
    Effect.counted (m := impl.tags) fun k a _ => (pollMqttTag_turn env k a).counts
  rw [← hcount] at hsweep
  exact (counted_mqtt (g := (v.pollMqttTags env impl).group) hprotocol).mpr hsweep

/-- A group that was found disconnected has no tag that is subscribed, and counts none. -/
theorem mqttDisconnected_initCount {g : TagGroup V}
    (h : g.initCount = count MqttTagEntry.subscribed g.mqttTags) :
    g.mqttDisconnected.initCount = 0 := by
  unfold TagGroup.mqttDisconnected
  cases himpl : g.mqttImpl with
  | none =>
    rw [TagGroup.mqttTags, himpl] at h
    exact h
  | some impl => rfl

theorem counted_processMqttTagGroup (hprotocol : v.group.protocol = .mqtt) (h : v.group.Counted)
    (env : MqttEnv) : (v.processMqttTagGroup env).group.Counted := by
  have hcount := (counted_mqtt hprotocol).mp h
  rcases processMqttTagGroup_cases env v with
    ⟨impl, himpl, -, hpoll⟩ | ⟨-, ok, v', impl, hinit, himpl, hpoll⟩
  · rw [hpoll]
    refine counted_pollMqttTags hprotocol ?_ env
    rw [hcount, TagGroup.mqttTags, himpl]
    rfl
  · have hgroup := (v.withGroup v.group.mqttDisconnected).initMqttClient_group env
    rw [hinit] at hgroup
    have hprotocol' : v'.group.protocol = .mqtt := by
      rw [hgroup]
      exact (mqttDisconnected_protocol v.group).trans hprotocol
    have hcount' : v'.group.initCount = 0 := by
      rw [hgroup]
      exact mqttDisconnected_initCount hcount
    have himpl' := himpl
    rw [hgroup] at himpl'
    have hnone : count MqttTagEntry.subscribed impl.tags = 0 := by
      rw [← Option.some.inj himpl', connect_tags]
      exact (count_map _ _ _).trans (total_eq_zero _ fun k tag _ => rfl)
    rw [hpoll]
    split
    · exact counted_pollMqttTags hprotocol' (hcount'.trans hnone.symm) env
    · refine (counted_mqtt hprotocol').mpr ?_
      rw [hcount', TagGroup.mqttTags, himpl]
      exact hnone.symm

/-- The RTDE part counts for the group. -/
theorem counted_ofRtde (hprotocol : v.group.protocol = .rtde) {r : Rtde.TagGroup} (h : r.Counted) :
    (v.ofRtde r).group.Counted := by
  refine (counted_rtde ((v.ofRtde_protocol r).trans hprotocol)).mpr ?_
  rw [v.ofRtde_toRtde r]
  exact ⟨h.count, h.unserved⟩

/-- A poll keeps the count. -/
theorem TagGroup.Counted.processTagGroup (h : v.group.Counted) (env : Env V) :
    (v.processTagGroup env).group.Counted := by
  unfold Visit.processTagGroup
  cases herror : v.group.hasError with
  | true => exact h
  | false =>
    simp only [Bool.false_eq_true, if_false]
    cases hprotocol : v.group.protocol with
    | opcUa => exact counted_processOpcUaTagGroup hprotocol h env.ua
    | ads => exact counted_processAdsTagGroup hprotocol h env.ads
    | rtde =>
      exact counted_ofRtde hprotocol
        (((counted_rtde hprotocol).mp h).process herror env.rtde)
    | mqtt => exact counted_processMqttTagGroup hprotocol h env.mqtt
    | softPlc =>
      exact counted_softPlc ((v.processSoftPlcTagGroup_protocol env.softPlc).trans hprotocol)
    | s7 | plctag name => exact counted_processPlcTagGroup (by rw [hprotocol]; rfl) h env.plc

end

/-! ## Registrations, writes and reads -/

section
variable {v : Visit V}

/-- A name that is looked up in an object, and the tags of the object. -/
theorem getElem?_of_any {β τ : Type} {object : Option β} {tags : β → Std.ExtTreeMap CStr τ}
    {name : CStr} (h : (object.any fun b => (tags b).contains name) = false) :
    ((object.map tags).getD ∅)[name]? = none := by
  cases object with
  | none => exact Std.ExtTreeMap.getElem?_empty
  | some b => exact Std.ExtTreeMap.getElem?_eq_none_of_contains_eq_false h

/-- A new tag has no handle and is not initialised. -/
theorem newTag_initialized (protocol protocol' : Protocol) (ty : TagType) :
    plcTagInitialized protocol (protocol'.newTag ty) = false := by
  have hnew : (protocol'.newTag ty).initialized = false ∧
      (protocol'.newTag ty).tagPointer = -1 := by
    cases protocol' <;> exact ⟨rfl, rfl⟩
  rw [plcTagInitialized, hnew.1, hnew.2]
  split <;> rfl

/-- A new tag is not initialised and not counted. -/
theorem TagGroup.Counted.registerTag (h : v.group.Counted) {tagName : CStr}
    (hnew : v.group.has tagName = false) (ty : TagType) :
    (v.registerTag tagName ty).2.group.Counted := by
  unfold TagGroup.has at hnew
  unfold Visit.registerTag
  cases hprotocol : v.group.protocol with
  | opcUa =>
    simp only [hprotocol] at hnew
    have hnone := Std.ExtTreeMap.getElem?_eq_none_of_contains_eq_false hnew
    refine (counted_opcUa ?_).mpr ?_
    · exact hprotocol
    · exact ((counted_opcUa hprotocol).mp h).trans (count_insert_new hnone rfl).symm
  | ads =>
    simp only [hprotocol] at hnew
    obtain ⟨hcount, hconnected⟩ := (counted_ads hprotocol).mp h
    have hnone : v.ads.1.tags[tagName]? = none := by
      rw [v.ads_tags]
      exact getElem?_of_any hnew
    refine (counted_ads ?_).mpr ⟨?_, ?_⟩
    · exact hprotocol
    · refine Eq.trans ?_ (count_insert_new hnone rfl).symm
      rw [v.ads_tags]
      exact hcount
    · intro hno
      refine hconnected ?_
      rw [TagGroup.adsDeviceConnected, ← v.ads_client]
      exact hno
  | rtde =>
    exact counted_ofRtde hprotocol (((counted_rtde hprotocol).mp h).registerTag tagName)
  | mqtt =>
    simp only [hprotocol] at hnew ⊢
    split
    · exact h
    · have hnone : v.mqtt.1.tags[tagName]? = none := by
        rw [v.mqtt_tags]
        exact getElem?_of_any hnew
      refine (counted_mqtt ?_).mpr ?_
      · exact hprotocol
      · refine Eq.trans ?_ (count_insert_new hnone rfl).symm
        rw [v.mqtt_tags]
        exact (counted_mqtt hprotocol).mp h
  | softPlc => exact counted_softPlc hprotocol
  | s7 | plctag name =>
    simp only [hprotocol] at hnew
    have hnone := Std.ExtTreeMap.getElem?_eq_none_of_contains_eq_false hnew
    have hplc : isPlc v.group.protocol = true := by
      rw [hprotocol]
      rfl
    refine (counted_plc ?_).mpr ?_
    · exact hplc
    · exact ((counted_plc hplc).mp h).trans
        (count_insert_new hnone (newTag_initialized _ _ ty)).symm

/-- A write to an OPC UA tag counts the tag it looks up. -/
theorem TagGroup.Counted.opcTagSet (hprotocol : v.group.protocol = .opcUa) (h : v.group.Counted)
    (env : UaWriteEnv) (tagPath : CStr) (ty : TagType) :
    (v.opcTagSet env tagPath ty).group.Counted := by
  -- the tag that is looked up keeps its flag, and one that was not there has none
  have hinsert : ∀ tag : OpcUaTag,
      tag.initialized = ((v.group.opcUaTags[tagPath]?).getD {}).initialized →
      (v.withGroup { v.group with
        opcUaTags := v.group.opcUaTags.insert tagPath tag }).group.Counted := by
    intro tag htag
    refine (counted_opcUa ?_).mpr ?_
    · exact hprotocol
    · refine ((counted_opcUa hprotocol).mp h).trans (count_insert_same tag ?_ ?_).symm
      · intro tag' hget
        rw [htag, hget]
        rfl
      · intro hget
        rw [htag, hget]
        rfl
  unfold Visit.opcTagSet
  split
  · simp only
    split
    · rename_i hinitialized
      rcases opcWrite_cases env _ tagPath with hwrite | ⟨client, -, -, v', rfl, hwrite | hwrite⟩
      · rw [hwrite]
        exact hinsert _ rfl
      · rw [hwrite]
        exact hinsert _ rfl
      · rw [hwrite]
        exact counted_invalidateOpcUaSession hprotocol
    · exact hinsert _ rfl
  · exact h

/-- A write to a tag of libplctag or S7 keeps the count. -/
theorem TagGroup.Counted.plcTagSet {g : TagGroup V} (hprotocol : isPlc g.protocol = true)
    (h : g.Counted) (written : Bool) (tagName : CStr) : (g.plcTagSet written tagName).Counted := by
  refine (counted_plc ?_).mpr ?_
  · exact hprotocol
  · refine ((counted_plc hprotocol).mp h).trans (count_insert_same _ ?_ ?_).symm
    · intro tag hget
      rw [hget]
      rfl
    · intro hget
      rw [hget]
      show (if _ then false else decide ((0 : Int) ≤ -1)) = false
      split <;> rfl

/-- A write keeps the count. -/
theorem TagGroup.Counted.processWrite [Rtde.GodotVariant V] (h : v.group.Counted) (env : WriteEnv)
    (w : Comms.WriteRequest V) : (v.processWrite env w).group.Counted := by
  unfold Visit.processWrite
  cases hprotocol : v.group.protocol with
  | opcUa =>
    cases instructionType w.instruction with
    | none => exact h
    | some ty => exact h.opcTagSet hprotocol env.ua w.tagName ty
  | rtde =>
    cases instructionType w.instruction with
    | none => exact h
    | some ty =>
      exact counted_ofRtde hprotocol
        (((counted_rtde hprotocol).mp h).rtdeTagSet w.tagName w.value)
  | softPlc =>
    cases instructionType w.instruction with
    | none => exact h
    | some ty =>
      obtain ⟨impl, hset⟩ := softPlcSet_group v.group w.tagName w.value
      show (v.group.softPlcSet w.tagName w.value).Counted
      rw [hset]
      exact counted_softPlc (g := { v.group with softPlcImpl := impl }) hprotocol
  | ads | mqtt => exact h
  | s7 | plctag name =>
    refine h.plcTagSet ?_ env.written w.tagName
    rw [hprotocol]
    rfl

end

/-! ## All that can happen -/

section
variable {g : TagGroup V}

theorem TagGroup.Counted.errs (h : g.Counted) : g.errs.Counted := by
  cases hprotocol : g.protocol with
  | rtde =>
    exact (counted_rtde (g := g.errs) hprotocol).mpr
      ⟨((counted_rtde hprotocol).mp h).count, fun herror => nomatch herror⟩
  | softPlc => exact counted_softPlc (g := g.errs) hprotocol
  | opcUa => exact (counted_opcUa (g := g.errs) hprotocol).mpr ((counted_opcUa hprotocol).mp h)
  | ads => exact (counted_ads (g := g.errs) hprotocol).mpr ((counted_ads hprotocol).mp h)
  | mqtt => exact (counted_mqtt (g := g.errs) hprotocol).mpr ((counted_mqtt hprotocol).mp h)
  | s7 | plctag name =>
    have hplc : isPlc g.protocol = true := by
      rw [hprotocol]
      rfl
    exact (counted_plc (g := g.errs) hplc).mpr ((counted_plc hplc).mp h)

/-- A value that has another type sets the error and leaves the count. -/
theorem TagGroup.Counted.readTag (h : g.Counted) (tagName : CStr) (ty : TagType) :
    (g.readTag tagName ty).Counted := by
  rcases readTag_cases g tagName ty with hread | hread
  · rw [hread]
    exact h
  · rw [hread]
    exact h.errs

theorem TagGroup.Counted.mqttMessageArrived (h : g.Counted) (topic : CStr)
    (payload : List UInt8) : (g.mqttMessageArrived topic payload).Counted := by
  rcases mqttMessageArrived_cases g topic payload with hsame | ⟨impl, tag, himpl, htag, hnew⟩
  · rw [hsame]
    exact h
  · rw [hnew]
    unfold TagGroup.Counted at h ⊢
    cases hprotocol : g.protocol with
    | mqtt =>
      simp only [hprotocol, TagGroup.mqttTags, himpl, Option.map_some, Option.getD_some] at h ⊢
      refine h.trans (count_insert_same _ ?_ ?_).symm
      · intro tag' htag'
        rw [htag] at htag'
        rw [← Option.some.inj htag']
      · intro hnone
        rw [htag] at hnone
        cases hnone
    | softPlc => trivial
    | opcUa | ads | rtde | s7 | plctag name =>
      simp only [hprotocol] at h ⊢
      exact h

/-- A clean-up leaves nothing initialised and nothing counted. -/
theorem counted_cleanup (v : Visit V) : v.cleanup.group.Counted := by
  have hprotocol := v.cleanup_protocol
  have hcount : v.cleanup.group.initCount = 0 := rfl
  unfold TagGroup.Counted
  rw [hprotocol, hcount]
  cases hp : v.group.protocol with
  | opcUa =>
    simp only [Visit.cleanup, Visit.release, hp]
    rfl
  | ads =>
    simp only [Visit.cleanup, Visit.release, hp]
    exact ⟨rfl, fun _ => trivial⟩
  | rtde =>
    simp only [Visit.cleanup, Visit.release, hp]
    exact ⟨rfl, fun _ _ name e he =>
      absurd (he.symm.trans Std.ExtTreeMap.getElem?_empty) (Option.some_ne_none e)⟩
  | mqtt =>
    simp only [Visit.cleanup, Visit.release, hp]
    rfl
  | softPlc => trivial
  | s7 | plctag name =>
    simp only [Visit.cleanup, Visit.release, hp]
    rfl

/-- Whatever happens to a group, the count stays right. -/
theorem TagGroup.Counted.apply [Rtde.GodotVariant V] {v : Visit V} (h : v.group.Counted)
    (op : GroupOp V) : (v.apply op).group.Counted := by
  cases op with
  | registerTag tagName ty =>
    show (if _ then v else _).group.Counted
    split
    · exact h
    · rename_i hnew
      exact h.registerTag (Bool.eq_false_iff.mpr hnew) ty
  | poll env => exact h.processTagGroup env
  | write env w => exact h.processWrite env w
  | read tagName ty => exact h.readTag tagName ty
  | message topic payload => exact h.mqttMessageArrived topic payload
  | setSoftPlcProgram source => exact h
  | setSoftPlcWatchEnabled enabled => exact h
  | frame delta startupTimer => exact h
  | cleanup => exact counted_cleanup v

end

/-! ## Every state -/

theorem counted_empty : ({} : TagGroup V).Counted := rfl

/-- A group as it is registered counts none. -/
theorem counted_registered (pollingInterval : Int) (protocol : Protocol)
    (gateway path cpu : CStr) :
    (TagGroup.registered pollingInterval protocol gateway path cpu : TagGroup V).Counted := by
  cases protocol with
  | ads => exact ⟨rfl, fun _ => rfl⟩
  | rtde => exact ⟨rfl, fun _ _ name e he => (nomatch Std.ExtTreeMap.getElem?_empty.symm.trans he)⟩
  | softPlc => trivial
  | opcUa | mqtt | s7 | plctag name => rfl

/-- In every state of every run, `init_count` of a group is the number of its tags that are
initialised. -/
theorem init_count_initialised [Rtde.GodotVariant V] (ops : List (Label V)) :
    Along Machine.step
      (fun m => ∀ (name : CStr) (g : TagGroup V), m.comms.tagGroups[name]? = some g →
        g.protocol ≠ .softPlc →
        g.initCount = g.initialisedCount ∧ g.initCount ≤ g.status.size)
      ({} : Machine V) ops := by
  refine (every_along counted_empty counted_registered ?_ ops).mono Machine.step ?_
  · intro g next op h
    exact TagGroup.Counted.apply (v := { group := g, next := next }) h op
  · intro m h name g hget hsoft
    have hcount := initialisedCount_eq (h name g hget) hsoft
    refine ⟨hcount, ?_⟩
    rw [hcount]
    exact count_le_size _ _

end OipComms.Backend
