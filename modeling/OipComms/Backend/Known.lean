import OipComms.Backend.Housed
import OipComms.Comms.RtdeGroup

/-!
# Groups as the registry knows them

`Comms/Registry.lean` knows of a group the names of its tags and its counts, and leaves to the
environment what a backend makes of a poll or a write. What happens to a group here is, as the
registry knows the group, what the registry does with it for some choice of the environment's.
-/

namespace OipComms.Backend

open Comms (TagType)
open Run Sweep

variable {V : Type}

/-! ## What the registry knows -/

/-- A tag as the registry knows it. -/
def OpcUaTag.known (tag : OpcUaTag) : Comms.Tag := { initialized := tag.initialized }

def AdsTagEntry.known (tag : AdsTagEntry) : Comms.Tag := { initialized := tag.initialized }

def MqttTagEntry.known (tag : MqttTagEntry) : Comms.Tag := { initialized := tag.subscribed }

/-- The tags the registry knows: those where the protocol has them, none for an object that is not
there. -/
def TagGroup.knownTags (g : TagGroup V) : Option Comms.TagMap :=
  match g.protocol with
  | .opcUa => some (g.opcUaTags.map fun _ tag => tag.known)
  | .ads => g.adsImpl.map fun impl => impl.tags.map fun _ tag => tag.known
  | .rtde => g.rtdeImpl.map fun object => object.impl.tags.map fun _ e => Comms.entryTag e
  | .mqtt => g.mqttImpl.map fun impl => impl.tags.map fun _ tag => tag.known
  | .softPlc => g.softPlcImpl.map fun impl => impl.tags.map fun _ _ => {}
  | .s7 | .plctag _ => some g.plcTags

/-- A group as the registry knows it. -/
def TagGroup.known (g : TagGroup V) : Comms.TagGroup where
  pollingInterval := g.pollingInterval
  time := g.time
  initCount := g.initCount
  initCountEmitted := g.initCountEmitted
  hasError := g.hasError
  protocol := g.protocol
  tags := g.knownTags
  needsSessionRecoveredSignal := g.needsSessionRecoveredSignal

section
variable {g : TagGroup V}

/-- The tags that are known of an ADS group. -/
theorem knownTags_ads (h : g.protocol = .ads) : g.knownTags =
    g.adsImpl.map fun impl => impl.tags.map fun _ tag => tag.known := by
  rw [TagGroup.knownTags, h]

theorem knownTags_rtde (h : g.protocol = .rtde) : g.knownTags =
    g.rtdeImpl.map fun object => object.impl.tags.map fun _ e => Comms.entryTag e := by
  rw [TagGroup.knownTags, h]

theorem knownTags_mqtt (h : g.protocol = .mqtt) : g.knownTags =
    g.mqttImpl.map fun impl => impl.tags.map fun _ tag => tag.known := by
  rw [TagGroup.knownTags, h]

theorem knownTags_softPlc (h : g.protocol = .softPlc) : g.knownTags =
    g.softPlcImpl.map fun impl => impl.tags.map fun _ _ => {} := by
  rw [TagGroup.knownTags, h]

theorem knownTags_opcUa (h : g.protocol = .opcUa) : g.knownTags =
    some (g.opcUaTags.map fun _ tag => tag.known) := by
  rw [TagGroup.knownTags, h]

theorem knownTags_plc (h : isPlc g.protocol = true) : g.knownTags = some g.plcTags := by
  unfold TagGroup.knownTags
  split
  all_goals first
    | rfl
    | rename_i hprotocol
      rw [hprotocol] at h
      cases h

end

/-- A group has the tags that are known of it. -/
theorem known_has (g : TagGroup V) (tagName : CStr) : g.known.has tagName = g.has tagName := by
  have hobject : ∀ {β τ : Type} (object : Option β) (tags : β → Std.ExtTreeMap CStr τ)
      (f : CStr → τ → Comms.Tag),
      ((object.map fun b => (tags b).map f).any fun t => t.contains tagName) =
        object.any fun b => (tags b).contains tagName := by
    intro β τ object tags f
    cases object with
    | none => rfl
    | some b => exact Std.ExtTreeMap.contains_map
  rw [Comms.TagGroup.has, TagGroup.has]
  show g.knownTags.any _ = _
  rw [TagGroup.knownTags]
  cases g.protocol with
  | opcUa => exact Std.ExtTreeMap.contains_map
  | ads => exact hobject g.adsImpl _ _
  | rtde => exact hobject g.rtdeImpl (fun object => object.impl.tags) _
  | mqtt => exact hobject g.mqttImpl _ _
  | softPlc => exact hobject g.softPlcImpl _ _
  | s7 | plctag name => rfl

/-- What is known of a group as it is registered. -/
theorem known_registered (pollingInterval : Int) (protocol : Comms.Protocol)
    (gateway path cpu : CStr) :
    (TagGroup.registered pollingInterval protocol gateway path cpu : TagGroup V).known =
      { pollingInterval := pollingInterval, time := 1000 * pollingInterval, protocol := protocol
        tags := if protocol.hasImpl then none else some ∅ } := by
  cases protocol with
  | opcUa | ads | rtde | mqtt | softPlc | s7 | plctag name => rfl

/-- A clean-up is known as one. -/
theorem Visit.known_cleanup (v : Visit V) : v.cleanup.group.known = v.group.known.cleanup := by
  unfold Visit.cleanup Visit.release Comms.TagGroup.cleanup TagGroup.known TagGroup.knownTags
  cases hprotocol : v.group.protocol with
  | opcUa | ads | rtde | mqtt | softPlc | s7 | plctag name =>
    simp only [hprotocol, Visit.makes, Visit.withGroup]
    rfl

/-! ## Frames -/

section
variable {g : TagGroup V}

/-- The registry counts the tags that are there. -/
theorem known_totalTagCount (h : g.Housed) : g.known.totalTagCount = g.totalTagCount := by
  have hobject : ∀ {β τ : Type} (object : Option β) (tags : β → Std.ExtTreeMap CStr τ)
      (f : CStr → τ → Comms.Tag),
      ((object.map fun b => (tags b).map f).getD ∅).size =
        (object.map fun b => (tags b).size).getD 0 := by
    intro β τ object tags f
    cases object with
    | none => rfl
    | some b => exact Std.ExtTreeMap.size_map
  unfold Comms.TagGroup.totalTagCount TagGroup.totalTagCount
  show (if g.protocol = .softPlc then 0 else (g.knownTags.getD ∅).size) = _
  have hplc := h.plc
  unfold TagGroup.knownTags
  cases hprotocol : g.protocol with
  | opcUa => exact Std.ExtTreeMap.size_map
  | ads => exact hobject g.adsImpl _ _
  | rtde => exact hobject g.rtdeImpl (fun object => object.impl.tags) _
  | mqtt => exact hobject g.mqttImpl _ _
  | softPlc =>
    rw [hprotocol] at hplc
    rw [hplc rfl]
    rfl
  | s7 | plctag name => rfl

/-- A frame is known as one. -/
theorem known_frame (h : g.Housed) (delta startupTimer : Int) :
    (g.frame delta startupTimer).known = g.known.frame delta startupTimer := by
  have hcount := known_totalTagCount h
  have hannounces : g.known.announces startupTimer = g.announces startupTimer := by
    rw [Comms.TagGroup.announces, hcount]
    rfl
  have hrecovers : g.known.recovers = g.recovers := by
    rw [Comms.TagGroup.recovers, hcount]
    rfl
  rw [Comms.TagGroup.frame, hannounces, hrecovers]
  rfl

/-- What is known of a group is what its signals tell. -/
theorem known_signals (h : g.Housed) (name : CStr) (delta startupTimer : Int) :
    g.known.signals name delta startupTimer = g.signals name delta startupTimer := by
  have hcount := known_totalTagCount h
  rw [Comms.TagGroup.signals, Comms.TagGroup.announces, Comms.TagGroup.recovers, hcount]
  rfl

end

/-! ## RTDE -/

/-- The RTDE part of a group is what is known of it. -/
theorem sees_known {g : TagGroup V} (h : g.protocol = .rtde) : g.known.Sees g.toRtde := by
  refine ⟨h, rfl, rfl, rfl, (knownTags_rtde h).trans ?_⟩
  rw [TagGroup.toRtde, Option.map_map]
  rfl

/-- What is seen of a group and what an RTDE group has nothing to do with are all of it. -/
theorem eq_of_sees {g g' : Comms.TagGroup} {r : Rtde.TagGroup} (h : g.Sees r) (h' : g'.Sees r)
    (htime : g.time = g'.time) (hemitted : g.initCountEmitted = g'.initCountEmitted)
    (hsignal : g.needsSessionRecoveredSignal = g'.needsSessionRecoveredSignal) : g = g' := by
  obtain ⟨hprotocol, hpolling, hcount, herror, htags⟩ := h
  obtain ⟨hprotocol', hpolling', hcount', herror', htags'⟩ := h'
  cases g
  cases g'
  simp only [Comms.TagGroup.mk.injEq]
  exact ⟨hpolling.trans hpolling'.symm, htime, hcount.trans hcount'.symm, hemitted,
    herror.trans herror'.symm, hprotocol.trans hprotocol'.symm, htags.trans htags'.symm, hsignal⟩

/-- The group as the RTDE group leaves it. -/
theorem known_ofRtde {v : Visit V} {r : Rtde.TagGroup} {g : Comms.TagGroup}
    (hprotocol : v.group.protocol = .rtde) (hpolling : r.pollingInterval = v.group.pollingInterval)
    (hgateway : r.gateway = v.group.gateway) (h : g.Sees r) (htime : g.time = v.group.time)
    (hemitted : g.initCountEmitted = v.group.initCountEmitted)
    (hsignal : g.needsSessionRecoveredSignal = v.group.needsSessionRecoveredSignal) :
    (v.ofRtde r).group.known = g := by
  have hsees := sees_known ((v.ofRtde_protocol r).trans hprotocol)
  rw [v.ofRtde_toRtde, ← hpolling, ← hgateway] at hsees
  obtain ⟨_, _, _, hgroup⟩ := v.ofRtde_group r
  refine eq_of_sees hsees h ?_ ?_ ?_
  · rw [hgroup]
    exact htime.symm
  · rw [hgroup]
    exact hemitted.symm
  · rw [hgroup]
    exact hsignal.symm

/-! ## Registration -/

/-- An object, made if it is not there, with a tag more. -/
theorem map_insert_object {β τ : Type} (object : Option β) (tags : β → Std.ExtTreeMap CStr τ)
    (f : τ → Comms.Tag) {t : Std.ExtTreeMap CStr τ} (ht : t = (object.map tags).getD ∅)
    (tagName : CStr) (tag : τ) :
    (t.insert tagName tag).map (fun _ a => f a) =
      ((object.map fun b => (tags b).map fun _ a => f a).getD ∅).insert tagName (f tag) := by
  rw [map_insert, ht]
  cases object with
  | none => rfl
  | some b => rfl

section
variable {v : Visit V}

/-- A tag that is registered is known as one. -/
theorem Visit.known_registerTag {tagName : CStr} (ty : TagType) (hname : tagName ≠ [])
    (hnew : v.group.has tagName = false) :
    (v.registerTag tagName ty).2.group.known = (v.group.known.register tagName ty).2 := by
  have hinserted : ∀ g : TagGroup V, v.group.protocol.accepts tagName = true →
      g.known = { v.group.known with tags := g.knownTags } →
      g.knownTags = some ((v.group.knownTags.getD ∅).insert tagName (v.group.protocol.newTag ty)) →
      g.known = (v.group.known.register tagName ty).2 := by
    intro g haccepts hrest htags
    have haccepts : v.group.known.protocol.accepts tagName = true := haccepts
    rw [hrest, htags, Comms.TagGroup.register, if_pos haccepts]
    rfl
  have hplc : isPlc v.group.protocol = true → v.group.protocol.accepts tagName = true →
      ({ v.group with
        plcTags := v.group.plcTags.insert tagName (v.group.protocol.newTag ty) } : TagGroup V).known =
        (v.group.known.register tagName ty).2 := by
    intro hplc haccepts
    refine hinserted _ haccepts rfl ((knownTags_plc ?_).trans ?_)
    · exact hplc
    · rw [knownTags_plc hplc]
      rfl
  unfold Visit.registerTag
  cases hprotocol : v.group.protocol with
  | opcUa =>
    rw [hprotocol] at hinserted
    refine hinserted _ rfl rfl ((knownTags_opcUa ?_).trans ?_)
    · exact hprotocol
    rw [knownTags_opcUa hprotocol]
    exact congrArg some (map_insert _ _ _ _)
  | ads =>
    rw [hprotocol] at hinserted
    refine hinserted _ rfl rfl ((knownTags_ads ?_).trans ?_)
    · exact hprotocol
    rw [knownTags_ads hprotocol]
    exact congrArg some (map_insert_object v.group.adsImpl AdsTagGroupImpl.tags
      AdsTagEntry.known v.ads_tags tagName {})
  | rtde =>
    have hnew' : v.group.known.has tagName = false := (known_has v.group tagName).trans hnew
    have hsees := ((sees_known hprotocol).register hname hnew' ty).2
    have hrest : (Rtde.registerTag tagName v.group.toRtde).2.pollingInterval =
          v.group.pollingInterval ∧
        (Rtde.registerTag tagName v.group.toRtde).2.gateway = v.group.gateway := by
      unfold Rtde.registerTag
      split
      · exact ⟨rfl, rfl⟩
      split
      · exact ⟨rfl, rfl⟩
      · simp only
        split <;> exact ⟨rfl, rfl⟩
    refine known_ofRtde hprotocol hrest.1 hrest.2 hsees ?_ ?_ ?_
    all_goals
      unfold Comms.TagGroup.register
      split
      · rfl
      · split <;> rfl
  | mqtt =>
    rw [hprotocol] at hinserted
    simp only
    split
    · rename_i hrefused
      rw [Comms.TagGroup.register, if_neg, if_neg]
      · show v.group.protocol ≠ .rtde
        rw [hprotocol]
        exact Comms.Protocol.noConfusion
      · show ¬ v.group.protocol.accepts tagName = true
        rw [hprotocol, Comms.Protocol.accepts, hrefused]
        exact Bool.false_ne_true
    · rename_i haccepted
      refine hinserted _ ?_ rfl ((knownTags_mqtt ?_).trans ?_)
      · rw [Comms.Protocol.accepts, Bool.eq_false_iff.mpr haccepted]
        rfl
      · exact hprotocol
      · rw [knownTags_mqtt hprotocol]
        exact congrArg some (map_insert_object v.group.mqttImpl MqttTagGroupImpl.tags
          MqttTagEntry.known v.mqtt_tags tagName {})
  | softPlc =>
    rw [hprotocol] at hinserted
    have htags : v.softPlc.1.tags = (v.group.softPlcImpl.map SoftPlcTagGroupImpl.tags).getD ∅ := by
      rcases v.softPlc_cases with ⟨hsome, -⟩ | ⟨hnone, hnew⟩
      · rw [hsome]
        rfl
      · rw [hnone, hnew]
        rfl
    refine hinserted _ rfl rfl ((knownTags_softPlc ?_).trans ?_)
    · exact hprotocol
    rw [knownTags_softPlc hprotocol]
    exact congrArg some (map_insert_object v.group.softPlcImpl SoftPlcTagGroupImpl.tags
      (fun _ => {}) htags tagName _)
  | s7 | plctag name =>
    rw [hprotocol] at hplc
    exact hplc rfl rfl

end

/-! ## Writes -/

/-- The entry the look-up with `operator[]` creates. -/
theorem map_insert_lookedUp {τ : Type} (f : τ → Comms.Tag) {default : τ} (hdefault : f default = {})
    (tags : Std.ExtTreeMap CStr τ) (k : CStr) {tag : τ}
    (htag : f tag = f ((tags[k]?).getD default)) :
    (tags.insert k tag).map (fun _ a => f a) = (tags.map fun _ a => f a).insertIfNew k {} := by
  cases hget : tags[k]? with
  | none =>
    rw [hget, Option.getD_none, hdefault] at htag
    have hnew : k ∉ tags.map fun _ a => f a := by
      rw [Std.ExtTreeMap.mem_map]
      intro hmem
      rw [Std.ExtTreeMap.getElem?_eq_some_getElem hmem] at hget
      cases hget
    rw [map_insert, htag]
    ext k' b
    rw [Std.ExtTreeMap.getElem?_insert, Std.ExtTreeMap.getElem?_insertIfNew]
    simp only [hnew, not_false_eq_true, and_true]
  | some a =>
    rw [hget] at htag
    have hold : k ∈ tags.map fun _ a => f a := by
      rw [Std.ExtTreeMap.mem_map, Std.ExtTreeMap.mem_iff_isSome_getElem?, hget]
      rfl
    rw [map_insert_same (fun _ a => f a) hget htag]
    ext k' b
    rw [Std.ExtTreeMap.getElem?_insertIfNew]
    simp only [hold, not_true_eq_false, and_false, if_false]

/-- A group with the tag a look-up creates. -/
def lookedUp (g : Comms.TagGroup) (tagName : CStr) : Comms.TagGroup :=
  { g with tags := g.tags.map fun tags => tags.insertIfNew tagName {} }

section
variable {v : Visit V}

/-- A session found dead is known as one. -/
theorem known_invalidateOpcUaSession (hprotocol : v.group.protocol = .opcUa) :
    v.invalidateOpcUaSession.group.known = v.group.known.invalidateOpcUaSession := by
  have htags : v.invalidateOpcUaSession.group.knownTags =
      v.group.knownTags.map fun tags => tags.map fun _ tag => { tag with initialized := false } := by
    rw [knownTags_opcUa hprotocol, knownTags_opcUa (g := v.invalidateOpcUaSession.group) hprotocol]
    have hgone : ∀ tag : OpcUaTag, tag.invalidated.known = { tag.known with initialized := false } := by
      intro tag
      rw [OpcUaTag.invalidated]
      split
      · rfl
      · rename_i hinitialized
        rw [OpcUaTag.known, Bool.eq_false_iff.mpr hinitialized]
    refine congrArg some ?_
    show (v.group.opcUaTags.map fun _ tag => tag.invalidated).map (fun _ tag => tag.known) =
      (v.group.opcUaTags.map fun _ tag => tag.known).map fun _ tag =>
        { tag with initialized := false }
    rw [Std.ExtTreeMap.map_map, Std.ExtTreeMap.map_map]
    simp only [hgone]
  show { v.group.known with
      tags := v.invalidateOpcUaSession.group.knownTags, initCount := 0, hasError := false
      needsSessionRecoveredSignal := true } = _
  rw [htags]
  rfl

/-- What `operator[]` does with the tag of a write, as the registry sees it. -/
theorem known_lookedUp (hprotocol : v.group.protocol = .opcUa) (tagPath : CStr) (tag : OpcUaTag)
    (htag : tag.known = ((v.group.opcUaTags[tagPath]?).getD {}).known) :
    ({ v.group with opcUaTags := v.group.opcUaTags.insert tagPath tag } : TagGroup V).known =
      lookedUp v.group.known tagPath := by
  have htags : ({ v.group with
      opcUaTags := v.group.opcUaTags.insert tagPath tag } : TagGroup V).knownTags =
      v.group.knownTags.map fun tags => tags.insertIfNew tagPath {} := by
    rw [knownTags_opcUa hprotocol]
    refine (knownTags_opcUa ?_).trans (congrArg some ?_)
    · exact hprotocol
    · exact map_insert_lookedUp OpcUaTag.known rfl v.group.opcUaTags tagPath htag
  exact congrArg (fun tags : Option Comms.TagMap => { v.group.known with tags := tags }) htags

/-- What a write makes of what is known of an OPC UA group. -/
theorem handed_opcUa (hprotocol : v.group.protocol = .opcUa) (tagPath : CStr) (o : Comms.Handed) :
    v.group.known.handed tagPath o =
      if o.connected then
        if ((v.group.opcUaTags[tagPath]?).getD {}).initialized && o.dead then
          (lookedUp v.group.known tagPath).invalidateOpcUaSession
        else lookedUp v.group.known tagPath
      else v.group.known := by
  have hprotocol' : v.group.known.protocol = .opcUa := hprotocol
  have hfound : (v.group.known.tags.bind fun tags => tags[tagPath]?).any Comms.Tag.initialized =
      ((v.group.opcUaTags[tagPath]?).getD {}).initialized := by
    show (v.group.knownTags.bind fun tags => tags[tagPath]?).any _ = _
    rw [knownTags_opcUa hprotocol, Option.bind_some, Std.ExtTreeMap.getElem?_map]
    cases v.group.opcUaTags[tagPath]? with
    | none => rfl
    | some tag => rfl
  unfold Comms.TagGroup.handed lookedUp
  simp only [hprotocol', hfound]

/-- A write of OPC UA is known by whether it found the session dead. -/
theorem known_opcWrite (hprotocol : v.group.protocol = .opcUa) (env : UaWriteEnv) {tagPath : CStr}
    (hclient : v.group.client.isSome = true)
    (hinitialized : ((v.group.opcUaTags[tagPath]?).getD {}).initialized = true) :
    (v.opcWrite env tagPath).group.known =
      if env.stillGood && opcUaStatusIndicatesDeadSession env.write then
        v.group.known.invalidateOpcUaSession
      else v.group.known := by
  obtain ⟨client, hclient⟩ := Option.isSome_iff_exists.mp hclient
  rw [Visit.opcWrite, hclient]
  simp only [hinitialized, Bool.and_true]
  cases env.stillGood with
  | false => rfl
  | true =>
    simp only [if_true, Bool.true_and]
    split
    · exact known_invalidateOpcUaSession (v := v.makes _) hprotocol
    · rfl

/-- `opc_tag_set` is a write that looks the tag up, if the client is connected. -/
theorem known_opcTagSet (hprotocol : v.group.protocol = .opcUa) (env : UaWriteEnv) (tagPath : CStr)
    (ty : TagType) :
    ∃ o, (v.opcTagSet env tagPath ty).group.known = v.group.known.handed tagPath o := by
  refine ⟨{ connected := env.typed && v.group.opcUaClientConnected env.stateGood, taken := false
            dead := env.stillGood && opcUaStatusIndicatesDeadSession env.write }, ?_⟩
  rw [handed_opcUa hprotocol]
  unfold Visit.opcTagSet
  simp only
  by_cases hconnected : (env.typed && v.group.opcUaClientConnected env.stateGood) = true
  · rw [if_pos hconnected, if_pos hconnected]
    by_cases hinitialized : ((v.group.opcUaTags[tagPath]?).getD {}).initialized = true
    · have hlooked := known_lookedUp hprotocol tagPath
        { (v.group.opcUaTags[tagPath]?).getD {} with value := some (.scalar ty) } rfl
      have hdead : (((v.group.opcUaTags[tagPath]?).getD {}).initialized &&
          (env.stillGood && opcUaStatusIndicatesDeadSession env.write)) =
          (env.stillGood && opcUaStatusIndicatesDeadSession env.write) := by
        rw [hinitialized, Bool.true_and]
      rw [if_pos hinitialized, hdead, ← hlooked]
      refine known_opcWrite (v := v.withGroup _) ?_ env ?_ ?_
      · exact hprotocol
      · exact (Bool.and_eq_true_iff.mp (Bool.and_eq_true_iff.mp hconnected).2).1
      · show (((v.group.opcUaTags.insert tagPath _)[tagPath]?).getD {}).initialized = true
        rw [Std.ExtTreeMap.getElem?_insert_self]
        exact hinitialized
    · rw [if_neg hinitialized, Bool.eq_false_iff.mpr hinitialized, Bool.false_and,
        if_neg Bool.false_ne_true]
      exact known_lookedUp hprotocol tagPath _ rfl
  · rw [if_neg hconnected, if_neg hconnected]

/-- `process_write` for soft PLCs changes a value and nothing the registry knows. -/
theorem known_softPlcSet (hprotocol : v.group.protocol = .softPlc) (tagName : CStr) (value : V) :
    (v.group.softPlcSet tagName value).known = v.group.known := by
  unfold TagGroup.softPlcSet
  cases himpl : v.group.softPlcImpl with
  | none => rfl
  | some impl =>
    simp only
    split
    · rfl
    rename_i tag hget
    split
    · rfl
    · have htags : ({ v.group with softPlcImpl := some { impl with
          tags := impl.tags.insert tagName { tag with value := some value } } } :
          TagGroup V).knownTags = v.group.knownTags := by
        rw [knownTags_softPlc hprotocol, himpl]
        refine (knownTags_softPlc ?_).trans (congrArg some ?_)
        · exact hprotocol
        · exact map_insert_same _ hget rfl
      exact congrArg (fun tags : Option Comms.TagMap => { v.group.known with tags := tags }) htags

/-- A write to a tag of libplctag or S7 is known as one. -/
theorem known_plcTagSet (hplc : isPlc v.group.protocol = true) (written : Bool) (tagName : CStr) :
    ∃ o, (v.group.plcTagSet written tagName).known = v.group.known.handed tagName o := by
  refine ⟨{ connected := false, dead := false
            taken := 0 ≤ ((v.group.plcTags[tagName]?).getD {}).tagPointer && written }, ?_⟩
  have htags := knownTags_plc (g := v.group.plcTagSet written tagName) hplc
  have hknown : (v.group.plcTagSet written tagName).known =
      { v.group.known with tags := some (v.group.plcTagSet written tagName).plcTags } :=
    congrArg (fun tags : Option Comms.TagMap => { v.group.known with tags := tags }) htags
  have hbefore : v.group.known.tags = some v.group.plcTags := knownTags_plc hplc
  rw [hknown, Comms.TagGroup.handed]
  cases hprotocol : v.group.known.protocol with
  | s7 | plctag name =>
    simp only [hbefore, hprotocol, Option.map_some]
    rfl
  | opcUa | ads | rtde | mqtt | softPlc =>
    have hplc : isPlc v.group.known.protocol = true := hplc
    rw [hprotocol] at hplc
    cases hplc

/-- `process_write` is the registry's, with what the backend made of the write. -/
theorem Visit.known_processWrite [Rtde.GodotVariant V] (env : WriteEnv) (w : Comms.WriteRequest V) :
    ∃ o, (v.processWrite env w).group.known = v.group.known.handed w.tagName o := by
  have hunseen : v.group.protocol.hasImpl = true →
      v.group.known.handed w.tagName ⟨false, false, false⟩ = v.group.known := by
    intro himpl
    have himpl : v.group.known.protocol.hasImpl = true := himpl
    unfold Comms.TagGroup.handed
    split
    · rfl
    all_goals first
      | rfl
      | rename_i hprotocol
        rw [hprotocol] at himpl
        cases himpl
  have hplc := fun h => known_plcTagSet (v := v) h env.written w.tagName
  unfold Visit.processWrite
  cases hprotocol : v.group.protocol with
  | opcUa =>
    cases instructionType w.instruction with
    | none =>
      refine ⟨⟨false, false, false⟩, ?_⟩
      rw [handed_opcUa hprotocol]
      rfl
    | some ty => exact known_opcTagSet hprotocol env.ua w.tagName ty
  | ads | mqtt =>
    rw [hprotocol] at hunseen
    exact ⟨_, (hunseen rfl).symm⟩
  | rtde =>
    rw [hprotocol] at hunseen
    refine ⟨⟨false, false, false⟩, ?_⟩
    rw [hunseen rfl]
    cases instructionType w.instruction with
    | none => rfl
    | some ty =>
      have hsees := (sees_known hprotocol).handed w.tagName w.value ⟨false, false, false⟩
      rw [hunseen rfl] at hsees
      obtain ⟨rtdeImpl, hset, -⟩ := Comms.rtdeTagSet_frame w.tagName w.value v.group.toRtde
      refine known_ofRtde hprotocol ?_ ?_ hsees rfl rfl rfl
      · rw [hset]
        rfl
      · rw [hset]
        rfl
  | softPlc =>
    rw [hprotocol] at hunseen
    refine ⟨⟨false, false, false⟩, ?_⟩
    rw [hunseen rfl]
    cases instructionType w.instruction with
    | none => rfl
    | some ty => exact known_softPlcSet hprotocol w.tagName w.value
  | s7 | plctag name =>
    rw [hprotocol] at hplc
    exact hplc rfl

end

/-! ## Messages -/

/-- `mqtt_message_arrived` changes a value and nothing the registry knows. -/
theorem known_mqttMessageArrived (g : TagGroup V) (topic : CStr) (payload : List UInt8) :
    (g.mqttMessageArrived topic payload).known = g.known := by
  rcases mqttMessageArrived_cases g topic payload with hsame | ⟨impl, tag, himpl, htag, hnew⟩
  · rw [hsame]
  have htags : (g.mqttMessageArrived topic payload).knownTags = g.knownTags := by
    rw [hnew]
    by_cases hprotocol : g.protocol = .mqtt
    · rw [knownTags_mqtt hprotocol, himpl]
      refine (knownTags_mqtt ?_).trans (congrArg some ?_)
      · exact hprotocol
      · exact map_insert_same _ htag rfl
    · unfold TagGroup.knownTags
      cases hother : g.protocol with
      | mqtt => exact absurd hother hprotocol
      | opcUa | ads | rtde | softPlc | s7 | plctag name => rfl
  have hrest : (g.mqttMessageArrived topic payload).known =
      { g.known with tags := (g.mqttMessageArrived topic payload).knownTags } := by
    rw [hnew]
    rfl
  rw [hrest, htags]
  rfl

end OipComms.Backend
