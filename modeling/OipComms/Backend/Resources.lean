import OipComms.Backend.Dispatch
import OipComms.Comms.RtdeGroup
import OipComms.Lib.Ledger

/-!
# What a group holds

The handles, the clients, the objects and the program that can be reached from a group. Whatever
happens to a group, what it held and was handed is what it holds and gave back; but for a poll that
compiles a soft PLC program anew, and puts its handle in the place of the one that was there.
-/

namespace OipComms.Backend

open Comms (Protocol TagType)
open Ledger Sweep

variable {V : Type}

/-! ## Part by part -/

section
variable (g : TagGroup V)

def TagGroup.plcHolds : Multiset Resource :=
  total (fun _ tag => (plcTagHolds g.protocol tag : Multiset Resource)) g.plcTags

def TagGroup.uaHolds : Multiset Resource := (g.client.toList.map .uaClient : List Resource)

def TagGroup.adsHolds : Multiset Resource :=
  (g.adsImpl.toList.flatMap AdsTagGroupImpl.holds : List Resource)

def TagGroup.rtdeHolds : Multiset Resource :=
  (g.rtdeImpl.toList.flatMap RtdeObject.holds : List Resource)

def TagGroup.mqttHolds : Multiset Resource :=
  (g.mqttImpl.toList.flatMap MqttTagGroupImpl.holds : List Resource)

def TagGroup.softPlcHolds : Multiset Resource :=
  (g.softPlcImpl.toList.flatMap SoftPlcTagGroupImpl.holds : List Resource)

/-- What can be reached from a group. -/
def TagGroup.holds : Multiset Resource :=
  g.plcHolds + g.uaHolds + g.adsHolds + g.rtdeHolds + g.mqttHolds + g.softPlcHolds

end

/-- What a group held and was handed between two visits is what it holds and gave back, and what was
lost. -/
def Visit.Loses (v v' : Visit V) (lost : Multiset Resource) : Prop :=
  ∃ calls, v'.calls = v.calls ++ calls ∧
    Balanced v.group.holds (acquired calls) v'.group.holds (released calls + lost)

/-- Nothing is lost. -/
abbrev Visit.Accounts (v v' : Visit V) : Prop := v.Loses v' 0

/-- Calls that neither take nor give anything. -/
def Neutral (calls : List (LibCall V)) : Prop := acquired calls = 0 ∧ released calls = 0

section
variable {v v' v'' : Visit V} {calls : List (LibCall V)}

/-- Calls that balance what is held account for a step. -/
theorem Visit.Accounts.of_balanced (hcalls : v'.calls = v.calls ++ calls)
    (h : Balanced v.group.holds (acquired calls) v'.group.holds (released calls)) :
    v.Accounts v' := ⟨calls, hcalls, (add_zero (released calls)).symm ▸ h⟩

/-- Calls that acquire and release nothing account for a step that holds the same. -/
theorem Visit.Accounts.of_neutral (hcalls : v'.calls = v.calls ++ calls) (hneutral : Neutral calls)
    (h : v.group.holds = v'.group.holds) : v.Accounts v' := by
  refine .of_balanced hcalls ?_
  rw [hneutral.1, hneutral.2]
  exact .of_eq h

/-- No call accounts for a step that holds the same. -/
theorem Visit.Accounts.of_same (hcalls : v'.calls = v.calls)
    (h : v.group.holds = v'.group.holds) : v.Accounts v' :=
  .of_neutral (hcalls.trans (List.append_nil v.calls).symm) ⟨rfl, rfl⟩ h

/-- Nothing that is done is accounted for. -/
theorem Visit.Accounts.refl (v : Visit V) : v.Accounts v := .of_same rfl rfl

/-- What two steps lose adds up. -/
theorem Visit.Loses.after {lost lost' : Multiset Resource} (h : v.Loses v' lost)
    (h' : v'.Loses v'' lost') : v.Loses v'' (lost + lost') := by
  obtain ⟨calls, hcalls, hbalanced⟩ := h
  obtain ⟨calls', hcalls', hbalanced'⟩ := h'
  refine ⟨calls ++ calls', ?_, ?_⟩
  · rw [hcalls', hcalls, List.append_assoc]
  · rw [acquired_append, released_append, add_add_add_comm]
    exact hbalanced.trans hbalanced'

/-- Two steps that are accounted for are so together. -/
theorem Visit.Accounts.trans (h : v.Accounts v') (h' : v'.Accounts v'') : v.Accounts v'' :=
  Visit.Loses.after h h'

end

/-! A change to one part of a group is balanced if the part is. -/

section
variable {v v' : Visit V} {calls : List (LibCall V)} (hcalls : v'.calls = v.calls ++ calls)
include hcalls

/-- A step on the tags of libplctag and S7 is accounted for by what their handles are. -/
theorem accounts_plc {plcTags : Std.ExtTreeMap CStr PlcTag} {initCount : Nat} {hasError : Bool}
    (hgroup : v'.group =
      { v.group with plcTags := plcTags, initCount := initCount, hasError := hasError })
    (h : Balanced v.group.plcHolds (acquired calls) v'.group.plcHolds (released calls)) :
    v.Accounts v' := by
  refine .of_balanced hcalls ?_
  rw [hgroup] at h ⊢
  exact ((((h.add_right _).add_right _).add_right _).add_right _).add_right _

/-- A step on the OPC UA client is accounted for by what becomes of the client. -/
theorem accounts_ua (hgroup : v.group.UaOf v'.group)
    (h : Balanced v.group.uaHolds (acquired calls) v'.group.uaHolds (released calls)) :
    v.Accounts v' := by
  obtain ⟨_, _, _, _, _, hgroup⟩ := hgroup
  refine .of_balanced hcalls ?_
  rw [hgroup] at h ⊢
  exact ((((h.add_left _).add_right _).add_right _).add_right _).add_right _

theorem accounts_ads {adsImpl : Option AdsTagGroupImpl} {initCount : Nat} {hasError : Bool}
    (hgroup : v'.group =
      { v.group with adsImpl := adsImpl, initCount := initCount, hasError := hasError })
    (h : Balanced v.group.adsHolds (acquired calls) v'.group.adsHolds (released calls)) :
    v.Accounts v' := by
  refine .of_balanced hcalls ?_
  rw [hgroup] at h ⊢
  exact (((h.add_left _).add_right _).add_right _).add_right _

theorem accounts_rtde {rtdeImpl : Option RtdeObject} {initCount : Nat} {hasError : Bool}
    (hgroup : v'.group =
      { v.group with rtdeImpl := rtdeImpl, initCount := initCount, hasError := hasError })
    (h : Balanced v.group.rtdeHolds (acquired calls) v'.group.rtdeHolds (released calls)) :
    v.Accounts v' := by
  refine .of_balanced hcalls ?_
  rw [hgroup] at h ⊢
  exact ((h.add_left _).add_right _).add_right _

/-- A step on the MQTT object is accounted for by what becomes of the object and its client. -/
theorem accounts_mqtt {mqttImpl : Option MqttTagGroupImpl} {initCount : Nat}
    {initCountEmitted hasError : Bool}
    (hgroup : v'.group = { v.group with
      mqttImpl := mqttImpl, initCount := initCount, initCountEmitted := initCountEmitted
      hasError := hasError })
    (h : Balanced v.group.mqttHolds (acquired calls) v'.group.mqttHolds (released calls)) :
    v.Accounts v' := by
  refine .of_balanced hcalls ?_
  rw [hgroup] at h ⊢
  exact (h.add_left _).add_right _

/-- A step on the soft PLC object loses what its calls do not account for. -/
theorem loses_softPlc {softPlcImpl : Option (SoftPlcTagGroupImpl V)} {hasError : Bool}
    {lost : Multiset Resource}
    (hgroup : v'.group = { v.group with softPlcImpl := softPlcImpl, hasError := hasError })
    (h : Balanced v.group.softPlcHolds (acquired calls) v'.group.softPlcHolds
      (released calls + lost)) :
    v.Loses v' lost := by
  refine ⟨calls, hcalls, ?_⟩
  rw [hgroup] at h ⊢
  exact h.add_left _

/-- A step on the soft PLC object is accounted for by what becomes of it and its program. -/
theorem accounts_softPlc {softPlcImpl : Option (SoftPlcTagGroupImpl V)} {hasError : Bool}
    (hgroup : v'.group = { v.group with softPlcImpl := softPlcImpl, hasError := hasError })
    (h : Balanced v.group.softPlcHolds (acquired calls) v'.group.softPlcHolds (released calls)) :
    v.Accounts v' :=
  loses_softPlc hcalls hgroup ((add_zero (released calls)).symm ▸ h)

end

/-! ## Calls -/

section
variable {calls calls' : List (LibCall V)}

/-- Two lists that acquire and release nothing do so together. -/
theorem Neutral.append (h : Neutral calls) (h' : Neutral calls') : Neutral (calls ++ calls') := by
  rw [Neutral, acquired_append, released_append, h.1, h'.1, h.2, h'.2]
  exact ⟨rfl, rfl⟩

/-- A list acquires and releases nothing if none of its calls does. -/
theorem neutral_of_forall (h : ∀ c ∈ calls, Neutral [c]) : Neutral calls := by
  induction calls with
  | nil => exact ⟨rfl, rfl⟩
  | cons c calls ih =>
    have hfirst := h c List.mem_cons_self
    exact hfirst.append (ih fun c' hc' => h c' (List.mem_cons_of_mem c hc'))

theorem acquired_flatMap {α : Type} (l : List α) (f : α → List (LibCall V)) :
    acquired (l.flatMap f) = (l.map fun x => acquired (f x)).sum := by
  induction l with
  | nil => rfl
  | cons x l ih => rw [List.flatMap_cons, acquired_append, ih, List.map_cons, List.sum_cons]

theorem released_flatMap {α : Type} (l : List α) (f : α → List (LibCall V)) :
    released (l.flatMap f) = (l.map fun x => released (f x)).sum := by
  induction l with
  | nil => rfl
  | cons x l ih => rw [List.flatMap_cons, released_append, ih, List.map_cons, List.sum_cons]

/-- Turns that take and give nothing. -/
theorem accounts_absorb (v : Visit V) {outs : List (Effect V)}
    (h : ∀ o ∈ outs, ∀ c ∈ o.calls, Neutral [c]) : v.Accounts (v.absorb outs) := by
  refine .of_neutral rfl (neutral_of_forall fun c hc => ?_) rfl
  obtain ⟨o, ho, hc⟩ := List.mem_flatMap.mp hc
  exact h o ho c hc

end

/-! ## Objects -/

/-- An object that is made is handed out and held. -/
theorem accounts_getAds (v : Visit V) : v.Accounts v.ads.2 := by
  rcases v.ads_cases with ⟨-, hsame⟩ | ⟨hnone, hnew⟩
  · rw [hsame]
    exact .refl v
  · have hheld : v.group.adsHolds = 0 := by
      rw [TagGroup.adsHolds, hnone]
      rfl
    rw [hnew]
    refine accounts_ads rfl rfl ?_
    rw [hheld]
    exact .take 0 _

theorem accounts_getRtde (v : Visit V) : v.Accounts v.rtde.2 := by
  rcases v.rtde_cases with ⟨-, hsame⟩ | ⟨hnone, hnew⟩
  · rw [hsame]
    exact .refl v
  · have hheld : v.group.rtdeHolds = 0 := by
      rw [TagGroup.rtdeHolds, hnone]
      rfl
    rw [hnew]
    refine accounts_rtde rfl rfl ?_
    rw [hheld]
    exact .take 0 _

theorem accounts_getMqtt (v : Visit V) : v.Accounts v.mqtt.2 := by
  rcases v.mqtt_cases with ⟨-, hsame⟩ | ⟨hnone, hnew⟩
  · rw [hsame]
    exact .refl v
  · have hheld : v.group.mqttHolds = 0 := by
      rw [TagGroup.mqttHolds, hnone]
      rfl
    rw [hnew]
    refine accounts_mqtt rfl rfl ?_
    rw [hheld]
    exact .take 0 _

theorem accounts_getSoftPlc (v : Visit V) : v.Accounts v.softPlc.2 := by
  rcases v.softPlc_cases with ⟨-, hsame⟩ | ⟨hnone, hnew⟩
  · rw [hsame]
    exact .refl v
  · have hheld : v.group.softPlcHolds = 0 := by
      rw [TagGroup.softPlcHolds, hnone]
      rfl
    rw [hnew]
    refine accounts_softPlc rfl rfl ?_
    rw [hheld]
    exact .take 0 _

/-! ## Libplctag and S7 -/

/-- A poll of libplctag or S7 tags keeps each handle it gets. -/
theorem accounts_processPlcTagGroup (v : Visit V) (env : PlcEnv) :
    v.Accounts (v.processPlcTagGroup env) := by
  refine accounts_plc rfl rfl ?_
  rw [acquired_flatMap, released_flatMap]
  exact total_sweep (pollPlcTag env v.group) _ _ _ fun tagName tag _ =>
    (pollPlcTag_law env v.group tagName tag).holds

/-- A tag that is put in the place of one with its handle, or of none and has no handle itself. -/
theorem accounts_insertPlcTag (v : Visit V) {tagName : CStr} {tag : PlcTag}
    (htag : tag.tagPointer = ((v.group.plcTags[tagName]?).getD {}).tagPointer) :
    v.Accounts (v.withGroup
      { v.group with plcTags := v.group.plcTags.insert tagName tag }) := by
  refine accounts_plc (List.append_nil v.calls).symm rfl ?_
  refine Balanced.insert (fun hnone => ?_) fun tag' hsome => ?_
  · rw [hnone] at htag
    rw [plcTagHolds, htag]
    exact .refl 0
  · rw [hsome] at htag
    rw [plcTagHolds, plcTagHolds, htag]
    exact .refl _

/-! ## OPC UA -/

/-- A client that is dropped is given back. -/
theorem accounts_dropOpcUaClient (v : Visit V) : v.Accounts v.dropOpcUaClient := by
  refine accounts_ua rfl ⟨_, _, _, _, _, rfl⟩ ?_
  rw [acquired_releases, released_releases]
  exact add_comm _ _

/-- A client that connects is kept, and one that does not is given back. -/
theorem accounts_initOpcUaClient (v : Visit V) (env : UaEnv) :
    v.Accounts (v.initOpcUaClient env).2 := by
  refine (accounts_dropOpcUaClient v).trans ?_
  unfold Visit.initOpcUaClient
  simp only
  split
  · exact accounts_ua rfl ⟨_, _, _, _, _, rfl⟩ (.take 0 _)
  · refine .of_balanced (List.append_assoc _ _ _) ?_
    show v.dropOpcUaClient.group.holds + {.uaClient v.next} = _
    rfl

/-- A session found dead costs the group its client, which is given back. -/
theorem accounts_invalidateOpcUaSession (v : Visit V) : v.Accounts v.invalidateOpcUaSession :=
  (accounts_dropOpcUaClient v).trans (.of_same rfl rfl)

theorem accounts_pollOpcUaTags (v : Visit V) (env : UaEnv) (client : Nat) :
    v.Accounts (v.pollOpcUaTags env client) := by
  have hswept : v.Accounts ((v.withGroup { v.group with
      opcUaTags := (sweep (pollOpcUaTag (V := V) env client) v.group.opcUaTags).entries }).absorb
        (sweep (pollOpcUaTag env client) v.group.opcUaTags).outs) := by
    refine .trans (.of_same rfl rfl) (accounts_absorb _ fun o ho c hc => ?_)
    obtain ⟨tagPath, tag, -, rfl⟩ := mem_outs _ ho
    obtain ⟨node, rfl, -⟩ := (pollOpcUaTag_turn env client tagPath tag).calls c hc
    exact ⟨rfl, rfl⟩
  unfold Visit.pollOpcUaTags
  simp only
  split
  · exact hswept.trans (accounts_invalidateOpcUaSession _)
  · exact hswept

theorem accounts_processOpcUaTagGroup (v : Visit V) (env : UaEnv) :
    v.Accounts (v.processOpcUaTagGroup env) := by
  rcases processOpcUaTagGroup_cases env v with ⟨client, -, -, hpoll⟩ | ⟨-, hpoll⟩
  · rw [hpoll]
    exact accounts_pollOpcUaTags v env client
  · rw [hpoll]
    split
    · exact (accounts_initOpcUaClient v env).trans (accounts_pollOpcUaTags _ env v.next)
    · exact accounts_initOpcUaClient v env

/-- A write of OPC UA is accounted for, also where it finds the session dead. -/
theorem accounts_opcWrite (v : Visit V) (env : UaWriteEnv) (tagPath : CStr) :
    v.Accounts (v.opcWrite env tagPath) := by
  rcases opcWrite_cases env v tagPath with hwrite | ⟨client, -, -, v', rfl, hwrite⟩
  · rw [hwrite]
    exact .refl v
  · have hmade : v.Accounts (v.makes
        [.uaWrite client ((v.group.opcUaTags[tagPath]?).getD {}).nodeId]) :=
      .of_neutral rfl ⟨rfl, rfl⟩ rfl
    rcases hwrite with hwrite | hwrite
    · rw [hwrite]
      exact hmade
    · rw [hwrite]
      exact hmade.trans (accounts_invalidateOpcUaSession _)

theorem accounts_opcTagSet (v : Visit V) (env : UaWriteEnv) (tagPath : CStr) (ty : TagType) :
    v.Accounts (v.opcTagSet env tagPath ty) := by
  unfold Visit.opcTagSet
  split
  · simp only
    split
    · exact .trans (.of_same rfl rfl) (accounts_opcWrite _ env tagPath)
    · exact .of_same rfl rfl
  · exact .refl v

/-! ## ADS -/

theorem accounts_pollAdsTags (v : Visit V) (env : AdsEnv) {impl : AdsTagGroupImpl}
    (himpl : v.group.adsImpl = some impl) : v.Accounts (v.pollAdsTags env impl) := by
  have hheld : v.Accounts (v.withGroup { v.group with
      adsImpl := some { impl with tags := (sweep (pollAdsTag (V := V) env) impl.tags).entries } }) := by
    refine accounts_ads (List.append_nil v.calls).symm rfl (.of_eq ?_)
    rw [TagGroup.adsHolds, himpl]
    rfl
  refine hheld.trans (accounts_absorb _ fun o ho c hc => ?_)
  obtain ⟨tagName, tag, -, rfl⟩ := mem_outs _ ho
  rw [(pollAdsTag_turn env tagName tag).calls] at hc
  exact absurd hc List.not_mem_nil

theorem accounts_processAdsTagGroup (v : Visit V) (env : AdsEnv) :
    v.Accounts (v.processAdsTagGroup env) := by
  rcases processAdsTagGroup_cases env v with
    ⟨impl, himpl, -, hpoll⟩ | ⟨-, ⟨-, hpoll⟩ | ⟨ok, v', -, rfl, hpoll⟩⟩
  · rw [hpoll]
    exact accounts_pollAdsTags v env himpl
  · rw [hpoll]
    exact .refl v
  · have hanew : v.Accounts (v.ads.2.withGroup
        { v.ads.2.group with adsImpl := some (v.ads.1.anew ok) }) :=
      (accounts_getAds v).trans (accounts_ads (List.append_nil _).symm rfl (.of_eq rfl))
    rw [hpoll]
    split
    · exact hanew.trans (accounts_pollAdsTags _ env rfl)
    · exact hanew

/-! ## RTDE -/

/-- An object that is there is there afterwards. -/
theorem accounts_ofRtde (v : Visit V) {r : Rtde.TagGroup}
    (h : r.rtdeImpl = none → v.group.toRtde.rtdeImpl = none) : v.Accounts (v.ofRtde r) := by
  have hcounted : ∀ initCount hasError, v.Accounts (v.withGroup
      { v.group with initCount := initCount, hasError := hasError }) :=
    fun _ _ => .of_same rfl rfl
  unfold Visit.ofRtde
  cases hrtde : r.rtdeImpl with
  | some impl =>
    refine (hcounted r.initCount r.hasError).trans ((accounts_getRtde _).trans ?_)
    exact accounts_rtde (List.append_nil _).symm rfl (.of_eq rfl)
  | none =>
    have hnone : v.group.rtdeImpl = none := Option.map_eq_none_iff.mp (h hrtde)
    refine accounts_rtde (List.append_nil _).symm rfl (.of_eq ?_)
    rw [TagGroup.rtdeHolds, hnone]
    rfl

theorem accounts_processRtdeTagGroup (v : Visit V) (connect : CStr → Except String Rtde.Socket) :
    v.Accounts (v.ofRtde (Rtde.processRtdeTagGroup connect v.group.toRtde)) := by
  refine accounts_ofRtde v fun hnone => ?_
  obtain ⟨impl, _, _, hprocess, -⟩ := Comms.processRtdeTagGroup_frame connect v.group.toRtde
  rw [hprocess] at hnone
  cases hnone

theorem accounts_rtdeTagSet [Rtde.GodotVariant V] (v : Visit V) (tagPath : CStr) (value : V) :
    v.Accounts (v.ofRtde (Rtde.rtdeTagSet tagPath value v.group.toRtde)) := by
  refine accounts_ofRtde v fun hnone => ?_
  obtain ⟨rtdeImpl, hset, htags⟩ := Comms.rtdeTagSet_frame tagPath value v.group.toRtde
  rw [hset] at hnone
  have hnone : rtdeImpl = none := hnone
  rw [hnone] at htags
  exact Option.map_eq_none_iff.mp htags.symm

theorem accounts_rtdeRegisterTag (v : Visit V) (tagName : CStr) :
    v.Accounts (v.ofRtde (Rtde.registerTag tagName v.group.toRtde).2) := by
  refine accounts_ofRtde v fun hnone => ?_
  unfold Rtde.registerTag at hnone
  split at hnone
  · exact hnone
  split at hnone
  · exact hnone
  · simp only at hnone
    split at hnone
    · cases hnone
    · cases hnone

/-! ## MQTT -/

/-- A connection that is lost leaves the client to the group. -/
theorem accounts_mqttDisconnected (v : Visit V) :
    v.Accounts (v.withGroup v.group.mqttDisconnected) := by
  unfold TagGroup.mqttDisconnected
  cases himpl : v.group.mqttImpl with
  | none => exact .refl v
  | some impl =>
    refine accounts_mqtt (List.append_nil v.calls).symm rfl (.of_eq ?_)
    rw [TagGroup.mqttHolds, himpl]
    rfl

/-- A client is kept from when it is made. -/
theorem accounts_initMqttClient (v : Visit V) (env : MqttEnv) :
    v.Accounts (v.initMqttClient env).2 := by
  have hcalls : (v.initMqttClient env).2.calls =
      v.mqtt.2.calls ++ (v.mqtt.1.connect env v.mqtt.2.group v.mqtt.2.next).2 := rfl
  refine (accounts_getMqtt v).trans (accounts_mqtt hcalls (v.initMqttClient_group env) ?_)
  have hbefore : v.mqtt.2.group.mqttHolds = (v.mqtt.1.holds : Multiset Resource) :=
    congrArg _ (List.flatMap_singleton _ _)
  have hafter : (v.initMqttClient env).2.group.mqttHolds =
      ((v.mqtt.1.connect env v.mqtt.2.group v.mqtt.2.next).1.holds : Multiset Resource) :=
    congrArg _ (List.flatMap_singleton _ _)
  rw [hbefore, hafter]
  exact connect_holds env v.mqtt.2.group v.mqtt.2.next v.mqtt.1

theorem accounts_pollMqttTags (v : Visit V) (env : MqttEnv) {impl : MqttTagGroupImpl}
    (himpl : v.group.mqttImpl = some impl) : v.Accounts (v.pollMqttTags env impl) := by
  have hheld : v.Accounts (v.withGroup { v.group with
      mqttImpl := some { impl with
        tags := (sweep (pollMqttTag (V := V) env) impl.tags).entries } }) := by
    refine accounts_mqtt (List.append_nil v.calls).symm rfl (.of_eq ?_)
    rw [TagGroup.mqttHolds, himpl]
    rfl
  refine hheld.trans (accounts_absorb _ fun o ho c hc => ?_)
  obtain ⟨tagName, tag, -, rfl⟩ := mem_outs _ ho
  rw [(pollMqttTag_turn env tagName tag).calls] at hc
  exact absurd hc List.not_mem_nil

theorem accounts_processMqttTagGroup (v : Visit V) (env : MqttEnv) :
    v.Accounts (v.processMqttTagGroup env) := by
  rcases processMqttTagGroup_cases env v with
    ⟨impl, himpl, -, hpoll⟩ | ⟨-, ok, v', impl, hinit, himpl, hpoll⟩
  · rw [hpoll]
    exact accounts_pollMqttTags v env himpl
  · have hconnected := accounts_initMqttClient (v.withGroup v.group.mqttDisconnected) env
    rw [hinit] at hconnected
    have hconnected := (accounts_mqttDisconnected v).trans hconnected
    rw [hpoll]
    split
    · exact hconnected.trans (accounts_pollMqttTags v' env himpl)
    · exact hconnected

theorem accounts_mqttMessageArrived (v : Visit V) (topic : CStr) (payload : List UInt8) :
    v.Accounts (v.withGroup (v.group.mqttMessageArrived topic payload)) := by
  rcases mqttMessageArrived_cases v.group topic payload with hsame | ⟨impl, tag, himpl, -, hnew⟩
  · rw [hsame]
    exact .refl v
  · rw [hnew]
    refine accounts_mqtt (List.append_nil v.calls).symm rfl (.of_eq ?_)
    rw [TagGroup.mqttHolds, himpl]
    rfl

/-! ## The soft PLC -/

/-- The program of an object. -/
def SoftPlcTagGroupImpl.program (impl : SoftPlcTagGroupImpl V) : Multiset Resource :=
  if 0 < impl.handle then {.program impl.address impl.handle} else 0

/-- A soft PLC object is held with its program. -/
theorem softPlcHolds_some {g : TagGroup V} {impl : SoftPlcTagGroupImpl V}
    (himpl : g.softPlcImpl = some impl) :
    g.softPlcHolds = impl.program + {.softPlcImpl impl.address} := by
  rw [TagGroup.softPlcHolds, himpl, SoftPlcTagGroupImpl.program, Option.toList_some,
    List.flatMap_singleton, SoftPlcTagGroupImpl.holds]
  split
  · rfl
  · rfl

/-- The object is put in the place of one with its address and its handle. -/
theorem accounts_withSoftPlc (v : Visit V) {impl impl' : SoftPlcTagGroupImpl V} {hasError : Bool}
    (himpl : v.group.softPlcImpl = some impl) (haddress : impl'.address = impl.address)
    (hhandle : impl'.handle = impl.handle) :
    v.Accounts (v.withGroup
      { v.group with softPlcImpl := some impl', hasError := hasError }) := by
  refine accounts_softPlc (List.append_nil v.calls).symm rfl (.of_eq ?_)
  have hafter : (v.withGroup { v.group with
      softPlcImpl := some impl', hasError := hasError }).group.softPlcHolds =
      impl'.program + {.softPlcImpl impl'.address} := softPlcHolds_some rfl
  rw [softPlcHolds_some himpl, hafter, SoftPlcTagGroupImpl.program, SoftPlcTagGroupImpl.program,
    haddress, hhandle]

/-- A scan keeps the program, and takes and gives nothing itself. -/
theorem loses_scanned (v : Visit V) (env : SoftPlcEnv V) {impl : SoftPlcTagGroupImpl V}
    {calls : List (LibCall V)} {lost : Multiset Resource}
    (h : Balanced v.group.softPlcHolds (acquired calls) (impl.program + {.softPlcImpl impl.address})
      (released calls + lost)) :
    v.Loses (v.scanned env impl calls) lost := by
  have hafter : (v.scanned env impl calls).group.softPlcImpl =
      some (impl.scan env v.group.pollingInterval).1 := rfl
  have hstep : Neutral (impl.scan env v.group.pollingInterval).2 := ⟨rfl, rfl⟩
  have hcalls : (v.scanned env impl calls).calls =
      v.calls ++ (calls ++ (impl.scan env v.group.pollingInterval).2) := rfl
  refine loses_softPlc hcalls rfl ?_
  rw [acquired_append, released_append, softPlcHolds_some hafter, hstep.1, hstep.2, add_zero,
    add_zero]
  exact h

/-- What a poll of the object loses: the program in the place of which it creates another, or fails
to. -/
def SoftPlcTagGroupImpl.lost (env : SoftPlcEnv V) (gateway : CStr) (impl : SoftPlcTagGroupImpl V) :
    Multiset Resource :=
  if impl.creates env gateway then impl.program else 0

/-- A poll of a soft PLC group loses the program it compiles another in the place of. -/
theorem loses_processSoftPlcTagGroup (v : Visit V) (env : SoftPlcEnv V) :
    v.Loses (v.processSoftPlcTagGroup env)
      ((v.group.softPlcImpl.map (SoftPlcTagGroupImpl.lost env v.group.gateway)).getD 0) := by
  cases himpl : v.group.softPlcImpl with
  | none =>
    rw [processSoftPlcTagGroup_none env himpl]
    exact Visit.Accounts.refl v
  | some impl =>
    show v.Loses _ (impl.lost env v.group.gateway)
    rw [SoftPlcTagGroupImpl.lost]
    rcases processSoftPlcTagGroup_cases env himpl with ⟨hinitialized, hpoll⟩ |
      ⟨-, hcreates, engine, hasError, -, hpoll⟩ | ⟨hcreates, hrefused, hpoll⟩ |
      ⟨hcreates, hcreated, hpoll⟩
    · have hcreates : impl.creates env v.group.gateway = false := by
        rw [SoftPlcTagGroupImpl.creates, hinitialized]
        rfl
      rw [hpoll, hcreates]
      refine loses_scanned v env ?_
      rw [softPlcHolds_some himpl]
      exact .refl _
    · rw [hpoll, hcreates]
      exact accounts_withSoftPlc v himpl rfl rfl
    · have hnone : (impl.refused env).program = 0 := if_neg (Int.not_lt.mpr hrefused)
      rw [hpoll, if_pos hcreates]
      refine loses_softPlc rfl rfl ?_
      rw [softPlcHolds_some himpl, softPlcHolds_some rfl, hnone]
      show impl.program + {.softPlcImpl impl.address} + 0 =
        0 + {.softPlcImpl impl.address} + (0 + impl.program)
      rw [add_zero, zero_add, zero_add, add_comm]
    · have hprogram : (impl.running env).program =
          {.program impl.address (env.create impl.programSource)} := by
        rw [running_eq]
        exact if_pos hcreated
      rw [hpoll, if_pos hcreates]
      refine loses_scanned v env ?_
      rw [softPlcHolds_some himpl, hprogram, running_eq]
      show impl.program + {.softPlcImpl impl.address} +
          {.program impl.address (env.create impl.programSource)} =
        {.program impl.address (env.create impl.programSource)} + {.softPlcImpl impl.address} +
          (0 + impl.program)
      rw [zero_add, add_comm, add_comm impl.program, add_assoc]

theorem accounts_softPlcSet (v : Visit V) (tagName : CStr) (value : V) :
    v.Accounts (v.withGroup (v.group.softPlcSet tagName value)) := by
  unfold TagGroup.softPlcSet
  cases himpl : v.group.softPlcImpl with
  | none => exact .refl v
  | some impl =>
    simp only
    split
    · exact .refl v
    split
    · exact .refl v
    · exact accounts_withSoftPlc v himpl rfl rfl

/-- The object is changed, and is made if it is not there. -/
theorem accounts_getSoftPlc_with (v : Visit V) {impl : SoftPlcTagGroupImpl V}
    (haddress : impl.address = v.softPlc.1.address) (hhandle : impl.handle = v.softPlc.1.handle) :
    v.Accounts (v.softPlc.2.withGroup { v.softPlc.2.group with softPlcImpl := some impl }) :=
  (accounts_getSoftPlc v).trans (accounts_withSoftPlc v.softPlc.2 rfl haddress hhandle)

end OipComms.Backend
