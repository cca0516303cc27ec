import OipComms.Backend.System

/-!
# Where the things of a group are

A group keeps the protocol it was registered with, and its tags, its client and its object are where
that protocol has them. Only `soft_plc_impl` may be anywhere: `set_soft_plc_program` does not look at
the protocol.
-/

namespace OipComms.Backend

open Comms (Protocol TagType)
open Run

variable {V : Type}

/-- Nothing is where another protocol has it. -/
structure TagGroup.Housed (g : TagGroup V) : Prop where
  plc : isPlc g.protocol = false → g.plcTags = ∅
  opcUa : g.protocol ≠ .opcUa →
    g.client = none ∧ g.opcUaTags = ∅ ∧ g.needsSessionRecoveredSignal = false
  ads : g.protocol ≠ .ads → g.adsImpl = none
  rtde : g.protocol ≠ .rtde → g.rtdeImpl = none
  mqtt : g.protocol ≠ .mqtt → g.mqttImpl = none

/-- A group as it is registered has only what its protocol makes. -/
theorem housed_registered (pollingInterval : Int) (protocol : Protocol)
    (gateway path cpu : CStr) :
    (TagGroup.registered pollingInterval protocol gateway path cpu : TagGroup V).Housed :=
  ⟨fun _ => rfl, fun _ => ⟨rfl, rfl, rfl⟩, fun _ => rfl, fun _ => rfl, fun _ => rfl⟩

/-- A group made by a look-up has nothing. -/
theorem housed_empty : ({} : TagGroup V).Housed := housed_registered 0 (.plctag []) [] [] []

/-! ## Each protocol at its own -/

section
variable {g : TagGroup V} (h : g.Housed)
include h

/-- A group of libplctag or S7 keeps its handles in its tags. -/
theorem TagGroup.Housed.withPlc (hprotocol : isPlc g.protocol = true)
    {plcTags : Std.ExtTreeMap CStr PlcTag} {initCount : Nat} {hasError : Bool} :
    ({ g with plcTags := plcTags, initCount := initCount, hasError := hasError }).Housed :=
  ⟨fun hno => absurd (hno.symm.trans hprotocol) Bool.false_ne_true, h.opcUa, h.ads, h.rtde, h.mqtt⟩

theorem TagGroup.Housed.withUa (hprotocol : g.protocol = .opcUa) {g' : TagGroup V}
    (hua : g.UaOf g') : g'.Housed ∧ g'.protocol = g.protocol := by
  obtain ⟨client, opcUaTags, initCount, hasError, signal, rfl⟩ := hua
  exact ⟨⟨h.plc, fun hno => absurd hprotocol hno, h.ads, h.rtde, h.mqtt⟩, rfl⟩

theorem TagGroup.Housed.withAds (hprotocol : g.protocol = .ads)
    {adsImpl : Option AdsTagGroupImpl} {initCount : Nat} {hasError : Bool} :
    ({ g with adsImpl := adsImpl, initCount := initCount, hasError := hasError }).Housed :=
  ⟨h.plc, h.opcUa, fun hno => absurd hprotocol hno, h.rtde, h.mqtt⟩

theorem TagGroup.Housed.withRtde (hprotocol : g.protocol = .rtde)
    {rtdeImpl : Option RtdeObject} {initCount : Nat} {hasError : Bool} :
    ({ g with rtdeImpl := rtdeImpl, initCount := initCount, hasError := hasError }).Housed :=
  ⟨h.plc, h.opcUa, h.ads, fun hno => absurd hprotocol hno, h.mqtt⟩

theorem TagGroup.Housed.withMqtt (hprotocol : g.protocol = .mqtt)
    {mqttImpl : Option MqttTagGroupImpl} {initCount : Nat} {initCountEmitted hasError : Bool} :
    ({ g with
      mqttImpl := mqttImpl, initCount := initCount, initCountEmitted := initCountEmitted
      hasError := hasError }).Housed :=
  ⟨h.plc, h.opcUa, h.ads, h.rtde, fun hno => absurd hprotocol hno⟩

end

section
variable {v : Visit V}

/-- A group that is housed, with the protocol of another. -/
def TagGroup.Stays (g g' : TagGroup V) : Prop := g'.Housed ∧ g'.protocol = g.protocol

/-- The RTDE functions keep a group to its own fields. -/
theorem stays_ofRtde (hprotocol : v.group.protocol = .rtde) (h : v.group.Housed)
    (r : Rtde.TagGroup) : v.group.Stays (v.ofRtde r).group := by
  obtain ⟨_, _, _, hgroup⟩ := v.ofRtde_group r
  rw [hgroup]
  exact ⟨h.withRtde hprotocol, rfl⟩

/-- A poll keeps a group to its own fields. -/
theorem stays_processTagGroup (h : v.group.Housed) (env : Env V) :
    v.group.Stays (v.processTagGroup env).group := by
  unfold Visit.processTagGroup
  split
  · exact ⟨h, rfl⟩
  · cases hprotocol : v.group.protocol with
    | opcUa => exact h.withUa hprotocol (v.processOpcUaTagGroup_uaOf env.ua)
    | ads =>
      obtain ⟨_, _, _, hgroup⟩ := v.processAdsTagGroup_group env.ads
      simp only [hgroup]
      exact ⟨h.withAds hprotocol, rfl⟩
    | rtde => exact stays_ofRtde hprotocol h _
    | mqtt =>
      obtain ⟨_, _, _, _, hgroup⟩ := v.processMqttTagGroup_group env.mqtt
      simp only [hgroup]
      exact ⟨h.withMqtt hprotocol, rfl⟩
    | softPlc =>
      obtain ⟨_, _, hgroup⟩ := v.processSoftPlcTagGroup_group env.softPlc
      simp only [hgroup]
      exact ⟨⟨h.plc, h.opcUa, h.ads, h.rtde, h.mqtt⟩, rfl⟩
    | s7 | plctag name =>
      have hplc : isPlc v.group.protocol = true := by
        rw [hprotocol]
        rfl
      exact ⟨h.withPlc hplc, rfl⟩

theorem stays_registerTag (h : v.group.Housed) (tagName : CStr) (ty : TagType) :
    v.group.Stays (v.registerTag tagName ty).2.group := by
  unfold Visit.registerTag
  cases hprotocol : v.group.protocol with
  | opcUa => exact h.withUa hprotocol ⟨_, _, _, _, _, rfl⟩
  | ads => exact ⟨h.withAds hprotocol, rfl⟩
  | rtde => exact stays_ofRtde hprotocol h _
  | mqtt =>
    simp only
    split
    · exact ⟨h, rfl⟩
    · exact ⟨h.withMqtt hprotocol, rfl⟩
  | softPlc => exact ⟨⟨h.plc, h.opcUa, h.ads, h.rtde, h.mqtt⟩, rfl⟩
  | s7 | plctag name =>
    have hplc : isPlc v.group.protocol = true := by
      rw [hprotocol]
      rfl
    exact ⟨h.withPlc hplc, rfl⟩

/-- A write keeps a group to its own fields. -/
theorem stays_processWrite [Rtde.GodotVariant V] (h : v.group.Housed) (env : WriteEnv)
    (w : Comms.WriteRequest V) : v.group.Stays (v.processWrite env w).group := by
  unfold Visit.processWrite
  split
  · rename_i hprotocol _
    exact h.withUa hprotocol (v.opcTagSet_uaOf env.ua w.tagName _)
  · rename_i hprotocol _
    exact stays_ofRtde hprotocol h _
  · obtain ⟨impl, hset⟩ := softPlcSet_group v.group w.tagName w.value
    rw [hset]
    exact ⟨⟨h.plc, h.opcUa, h.ads, h.rtde, h.mqtt⟩, rfl⟩
  · rename_i hprotocol
    exact ⟨h.withPlc (by rw [hprotocol]; rfl), rfl⟩
  · rename_i hprotocol
    exact ⟨h.withPlc (by rw [hprotocol]; rfl), rfl⟩
  all_goals exact ⟨h, rfl⟩

theorem stays_release (h : v.group.Housed) : v.group.Stays v.release.group := by
  unfold Visit.release
  cases hprotocol : v.group.protocol with
  | opcUa => exact h.withUa hprotocol ⟨_, _, _, _, _, rfl⟩
  | ads => exact ⟨h.withAds hprotocol, rfl⟩
  | rtde => exact ⟨h.withRtde hprotocol, rfl⟩
  | mqtt => exact ⟨h.withMqtt hprotocol, rfl⟩
  | softPlc => exact ⟨⟨h.plc, h.opcUa, h.ads, h.rtde, h.mqtt⟩, rfl⟩
  | s7 | plctag name =>
    have hplc : isPlc v.group.protocol = true := by
      rw [hprotocol]
      rfl
    exact ⟨h.withPlc hplc, rfl⟩

/-- A clean-up keeps a group to its own fields. -/
theorem stays_cleanup (h : v.group.Housed) : v.group.Stays v.cleanup.group := by
  obtain ⟨hhoused, hprotocol⟩ := stays_release h
  exact ⟨⟨hhoused.plc, hhoused.opcUa, hhoused.ads, hhoused.rtde, hhoused.mqtt⟩, hprotocol⟩

/-- Whatever happens to a group, it keeps its protocol and has nothing where another protocol would
have it. -/
theorem stays_apply [Rtde.GodotVariant V] (h : v.group.Housed) (op : GroupOp V) :
    v.group.Stays (v.apply op).group := by
  cases op with
  | registerTag tagName ty =>
    show v.group.Stays (if _ then v else _).group
    split
    · exact ⟨h, rfl⟩
    · exact stays_registerTag h tagName ty
  | poll env => exact stays_processTagGroup h env
  | write env w => exact stays_processWrite h env w
  | read tagName ty =>
    show v.group.Stays (v.group.readTag tagName ty)
    rcases readTag_cases v.group tagName ty with hread | hread
    · rw [hread]
      exact ⟨h, rfl⟩
    · rw [hread]
      exact ⟨⟨h.plc, h.opcUa, h.ads, h.rtde, h.mqtt⟩, rfl⟩
  | message topic payload =>
    show v.group.Stays (v.group.mqttMessageArrived topic payload)
    rcases mqttMessageArrived_cases v.group topic payload with hsame | ⟨impl, _, himpl, -, hnew⟩
    · rw [hsame]
      exact ⟨h, rfl⟩
    · rw [hnew]
      refine ⟨⟨h.plc, h.opcUa, h.ads, h.rtde, fun hno => ?_⟩, rfl⟩
      rw [h.mqtt hno] at himpl
      cases himpl
  | setSoftPlcProgram source | setSoftPlcWatchEnabled enabled =>
    exact ⟨⟨h.plc, h.opcUa, h.ads, h.rtde, h.mqtt⟩, rfl⟩
  | frame delta startupTimer =>
    refine ⟨⟨h.plc, fun hno => ?_, h.ads, h.rtde, h.mqtt⟩, rfl⟩
    obtain ⟨hclient, htags, hsignal⟩ := h.opcUa hno
    refine ⟨hclient, htags, ?_⟩
    show (v.group.needsSessionRecoveredSignal && _) = false
    rw [hsignal]
    rfl
  | cleanup => exact stays_cleanup h

end

/-- In every state of every run, every group is housed. -/
theorem housed_along [Rtde.GodotVariant V] (ops : List (Label V)) :
    Along Machine.step (fun m => m.comms.Every TagGroup.Housed) ({} : Machine V) ops :=
  every_along housed_empty housed_registered
    (fun g next op h => (stays_apply (v := { group := g, next := next }) h op).1) ops

end OipComms.Backend
