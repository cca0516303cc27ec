import OipComms.Backend.Known

/-!
# Polls as the registry knows them

A poll adds no tag to its group and takes none away, and only one of OPC UA tags stops the
simulation. That is all the registry asks of it.
-/

namespace OipComms.Backend

open Sweep

variable {V : Type}

/-! ## Polls -/

/-- The names of the tags are kept; an object may be made, without tags. -/
def NamesKept : Option Comms.TagMap → Option Comms.TagMap → Prop
  | some tags, tags' => ∃ t, tags' = some t ∧ ∀ name, name ∈ t ↔ name ∈ tags
  | none, tags' => tags' = none ∨ tags' = some ∅

/-- Tags that stay keep their names. -/
theorem NamesKept.refl (tags : Option Comms.TagMap) : NamesKept tags tags := by
  cases tags with
  | none => exact .inl rfl
  | some tags => exact ⟨tags, rfl, fun _ => Iff.rfl⟩

/-- An object that is there afterwards with the same names. -/
theorem namesKept_object {β τ : Type} (object : Option β) {tags : β → Std.ExtTreeMap CStr τ}
    {f : τ → Comms.Tag} {b : β}
    (h : ∀ name, name ∈ tags b ↔ name ∈ (object.map tags).getD ∅) :
    NamesKept (object.map fun b => (tags b).map fun _ a => f a)
      (some ((tags b).map fun _ a => f a)) := by
  cases object with
  | none =>
    refine .inr (congrArg some (Std.ExtTreeMap.ext_getElem? fun name => ?_))
    rw [Std.ExtTreeMap.getElem?_eq_none, Std.ExtTreeMap.getElem?_empty]
    rw [Std.ExtTreeMap.mem_map, h]
    exact Std.ExtTreeMap.not_mem_empty
  | some b' =>
    refine ⟨_, rfl, fun name => ?_⟩
    rw [Std.ExtTreeMap.mem_map, Std.ExtTreeMap.mem_map]
    exact h name

/-- A poll that comes to nothing. -/
def noPoll : Comms.Polled where
  tag := fun _ tag => tag
  initCount := 0
  initCountEmitted := false
  hasError := false
  needsSessionRecoveredSignal := false
  creates := false
  stops := false

/-- What keeps the names is a poll for some choice of the environment's. -/
theorem exists_polled {g : Comms.TagGroup} (g' : Comms.TagGroup) (herror : g.hasError = false)
    (hpolling : g'.pollingInterval = g.pollingInterval) (htime : g'.time = g.time)
    (hprotocol : g'.protocol = g.protocol) (hnames : NamesKept g.tags g'.tags) (stops : Bool) :
    ∃ o, g.poll o = g' ∧ o.stops = stops := by
  refine ⟨{ tag := fun name _ => (((g'.tags.getD ∅))[name]?).getD {}
            initCount := g'.initCount, initCountEmitted := g'.initCountEmitted
            hasError := g'.hasError
            needsSessionRecoveredSignal := g'.needsSessionRecoveredSignal
            creates := g'.tags.isSome, stops := stops }, ?_, rfl⟩
  obtain ⟨pollingInterval, time, initCount, initCountEmitted, hasError, protocol, tags, signal⟩ := g
  obtain ⟨pollingInterval', time', initCount', initCountEmitted', hasError', protocol', tags',
    signal'⟩ := g'
  cases hpolling
  cases htime
  cases hprotocol
  cases herror
  simp only [Comms.TagGroup.poll, Bool.false_eq_true, if_false, Comms.TagGroup.mk.injEq, and_true,
    true_and]
  cases tags with
  | none =>
    rcases hnames with rfl | rfl
    · rfl
    · rfl
  | some tags =>
    obtain ⟨t, rfl, hnames⟩ := hnames
    exact congrArg some (Comms.map_of_names hnames)

/-! What follows says of each backend that a poll keeps the names of the tags. -/

section
variable {v : Visit V}

/-- The reads of a poll keep the tags. -/
theorem names_pollOpcUaTags (env : UaEnv) (client : Nat) (name : CStr) :
    name ∈ (v.pollOpcUaTags env client).group.opcUaTags ↔ name ∈ v.group.opcUaTags := by
  unfold Visit.pollOpcUaTags
  simp only
  split
  · exact Std.ExtTreeMap.mem_map.trans (mem_sweep _)
  · exact mem_sweep _

theorem names_processOpcUaTagGroup (env : UaEnv) (name : CStr) :
    name ∈ (v.processOpcUaTagGroup env).group.opcUaTags ↔ name ∈ v.group.opcUaTags := by
  rcases processOpcUaTagGroup_cases env v with ⟨client, -, -, hpoll⟩ | ⟨-, hpoll⟩
  · rw [hpoll]
    exact names_pollOpcUaTags env client name
  · have htags : (v.initOpcUaClient env).2.group.opcUaTags = v.group.opcUaTags := by
      rw [v.initOpcUaClient_group env]
    rw [hpoll, ← htags]
    split
    · exact names_pollOpcUaTags env v.next name
    · exact Iff.rfl

theorem names_processAdsTagGroup (env : AdsEnv) :
    (v.processAdsTagGroup env).group.adsImpl = v.group.adsImpl ∨
      ∃ impl, (v.processAdsTagGroup env).group.adsImpl = some impl ∧
        ∀ name, name ∈ impl.tags ↔ name ∈ v.group.adsTags := by
  rcases processAdsTagGroup_cases env v with
    ⟨impl, himpl, -, hpoll⟩ | ⟨-, ⟨-, hpoll⟩ | ⟨ok, v', -, rfl, hpoll⟩⟩
  · rw [hpoll]
    refine .inr ⟨_, rfl, fun name => (mem_sweep _).trans ?_⟩
    rw [TagGroup.adsTags, himpl]
    rfl
  · rw [hpoll]
    exact .inl rfl
  · rw [hpoll, ← v.ads_tags]
    split
    · exact .inr ⟨_, rfl, fun name => (mem_sweep _).trans Std.ExtTreeMap.mem_map⟩
    · exact .inr ⟨_, rfl, fun name => Std.ExtTreeMap.mem_map⟩

theorem names_processMqttTagGroup (env : MqttEnv) :
    ∃ impl, (v.processMqttTagGroup env).group.mqttImpl = some impl ∧
      ∀ name, name ∈ impl.tags ↔ name ∈ v.group.mqttTags := by
  rcases processMqttTagGroup_cases env v with
    ⟨impl, himpl, -, hpoll⟩ | ⟨-, ok, v', impl, hinit, himpl, hpoll⟩
  · rw [hpoll, TagGroup.mqttTags, himpl]
    exact ⟨_, rfl, fun name => mem_sweep _⟩
  · have hgroup := (v.withGroup v.group.mqttDisconnected).initMqttClient_group env
    rw [hinit] at hgroup
    have hkept : ∀ name, name ∈ impl.tags ↔ name ∈ v.group.mqttTags := by
      intro name
      have himpl' : v'.group.mqttImpl = some impl := himpl
      rw [hgroup] at himpl'
      rw [← Option.some.inj himpl', connect_tags, MqttTagGroupImpl.dropped,
        Std.ExtTreeMap.mem_map, Visit.mqtt_tags]
      exact mem_mqttDisconnected v.group name
    rw [hpoll]
    split
    · exact ⟨_, rfl, fun name => (mem_sweep _).trans (hkept name)⟩
    · exact ⟨impl, himpl, hkept⟩

/-- A poll of a soft PLC group keeps the tags. -/
theorem names_processSoftPlcTagGroup (env : SoftPlcEnv V) {impl : SoftPlcTagGroupImpl V}
    (himpl : v.group.softPlcImpl = some impl) :
    ∃ impl', (v.processSoftPlcTagGroup env).group.softPlcImpl = some impl' ∧
      ∀ name, name ∈ impl'.tags ↔ name ∈ impl.tags := by
  have hmarked : ∀ name, name ∈ (impl.running env).tags ↔ name ∈ impl.tags := by
    intro name
    rw [running_eq]
    unfold SoftPlcTagGroupImpl.marked
    split
    · exact Iff.rfl
    · exact Std.ExtTreeMap.mem_map.trans Std.ExtTreeMap.mem_map
  rcases processSoftPlcTagGroup_cases env himpl with ⟨-, hpoll⟩ |
    ⟨-, -, engine, hasError, -, hpoll⟩ | ⟨-, -, hpoll⟩ | ⟨-, -, hpoll⟩
  · rw [hpoll]
    exact ⟨_, rfl, fun name => Std.ExtTreeMap.mem_map⟩
  · rw [hpoll]
    exact ⟨_, rfl, fun name => Iff.rfl⟩
  · rw [hpoll]
    exact ⟨_, rfl, fun name => Iff.rfl⟩
  · rw [hpoll]
    exact ⟨_, rfl, fun name => Std.ExtTreeMap.mem_map.trans (hmarked name)⟩

/-- A poll keeps the names of the tags. -/
theorem names_processTagGroup (env : Env V) (herror : v.group.hasError = false) :
    NamesKept v.group.knownTags (v.processTagGroup env).group.knownTags := by
  have hprotocol' := v.processTagGroup_protocol env
  unfold Visit.processTagGroup at hprotocol' ⊢
  rw [if_neg (by rw [herror]; exact Bool.false_ne_true)] at hprotocol' ⊢
  cases hprotocol : v.group.protocol with
  | opcUa =>
    simp only [hprotocol] at hprotocol' ⊢
    rw [knownTags_opcUa hprotocol, knownTags_opcUa hprotocol']
    refine ⟨_, rfl, fun name => ?_⟩
    rw [Std.ExtTreeMap.mem_map, Std.ExtTreeMap.mem_map]
    exact names_processOpcUaTagGroup env.ua name
  | ads =>
    simp only [hprotocol] at hprotocol' ⊢
    rw [knownTags_ads hprotocol, knownTags_ads hprotocol']
    rcases names_processAdsTagGroup (v := v) env.ads with hsame | ⟨impl, himpl, hnames⟩
    · rw [hsame]
      exact .refl _
    · rw [himpl]
      exact namesKept_object _ hnames
  | rtde =>
    simp only [hprotocol] at hprotocol' ⊢
    obtain ⟨impl, initCount, hasError, hprocess, hnames⟩ :=
      Comms.processRtdeTagGroup_frame env.rtde v.group.toRtde
    have htags := (sees_known hprotocol').tags
    rw [v.ofRtde_toRtde] at htags
    have hbefore := (sees_known hprotocol).tags
    show NamesKept v.group.known.tags (TagGroup.known _).tags
    rw [htags, hbefore, hprocess]
    refine namesKept_object _ fun name => (hnames name).trans ?_
    cases v.group.toRtde.rtdeImpl with
    | none => exact Iff.rfl
    | some impl => exact Iff.rfl
  | mqtt =>
    simp only [hprotocol] at hprotocol' ⊢
    obtain ⟨impl, himpl, hnames⟩ := names_processMqttTagGroup (v := v) env.mqtt
    rw [knownTags_mqtt hprotocol, knownTags_mqtt hprotocol', himpl]
    exact namesKept_object _ hnames
  | softPlc =>
    simp only [hprotocol] at hprotocol' ⊢
    rw [knownTags_softPlc hprotocol, knownTags_softPlc hprotocol']
    cases himpl : v.group.softPlcImpl with
    | none =>
      rw [processSoftPlcTagGroup_none env.softPlc himpl, himpl]
      exact .refl _
    | some impl =>
      obtain ⟨impl', himpl', hnames⟩ := names_processSoftPlcTagGroup env.softPlc himpl
      rw [himpl']
      exact namesKept_object (some impl) hnames
  | s7 | plctag name =>
    simp only [hprotocol] at hprotocol' ⊢
    have hplc : isPlc v.group.protocol = true := by
      rw [hprotocol]
      rfl
    rw [knownTags_plc hplc, knownTags_plc (g := (v.processPlcTagGroup env.plc).group) hplc]
    exact ⟨_, rfl, fun name => mem_sweep _⟩

/-! A poll stops the simulation only for OPC UA tags. -/

/-- What does not stop a sweep does not end the poll. -/
theorem absorb_stops {outs : List (Effect V)} (h : ∀ out ∈ outs, out.stops = false) :
    (v.absorb outs).stops = v.stops := by
  have hnone : outs.any Effect.stops = false := by
    rw [List.any_eq_false]
    intro out hout hstops
    cases (h out hout).symm.trans hstops
  rw [Visit.absorb, hnone, Bool.or_false]

theorem pollAdsTag_stops (env : AdsEnv) (tagName : CStr) (tag : AdsTagEntry) :
    (pollAdsTag env tagName tag : Swept AdsTagEntry (Effect V)).out.stops = false := by
  have hread : ∀ (tag : AdsTagEntry) (counted : Nat),
      (readAdsTag env tag counted : Swept AdsTagEntry (Effect V)).out.stops = false := by
    intro tag counted
    unfold readAdsTag
    split
    · rfl
    split
    · rfl
    simp only
    split
    · rfl
    · rfl
  unfold pollAdsTag
  split
  · exact hread _ _
  split
  · rfl
  · exact hread _ _

/-- The reads of ADS tags come to their end. -/
theorem pollAdsTags_stops (env : AdsEnv) (impl : AdsTagGroupImpl) :
    (v.pollAdsTags env impl).stops = v.stops := by
  refine absorb_stops (v := v.withGroup _) fun out hout => ?_
  obtain ⟨tagName, tag, -, rfl⟩ := mem_outs _ hout
  exact pollAdsTag_stops env tagName tag

theorem pollMqttTags_stops (env : MqttEnv) (impl : MqttTagGroupImpl) :
    (v.pollMqttTags env impl).stops = v.stops := by
  refine absorb_stops (v := v.withGroup _) fun out hout => ?_
  obtain ⟨tagName, tag, -, rfl⟩ := mem_outs _ hout
  exact pollMqttTag_stops env tagName tag

/-- Only the poll of an OPC UA group ends before all its tags. -/
theorem processTagGroup_stops (env : Env V) (hprotocol : v.group.protocol ≠ .opcUa) :
    (v.processTagGroup env).stops = v.stops := by
  unfold Visit.processTagGroup
  split
  · rfl
  split
  · rename_i hopcUa
    exact absurd hopcUa hprotocol
  · rcases processAdsTagGroup_cases env.ads v with
      ⟨impl, -, -, hpoll⟩ | ⟨-, ⟨-, hpoll⟩ | ⟨ok, v', -, rfl, hpoll⟩⟩
    · rw [hpoll, pollAdsTags_stops]
    · rw [hpoll]
    · rw [hpoll]
      split
      · rw [pollAdsTags_stops]
        rfl
      · rfl
  · unfold Visit.ofRtde
    split
    · rfl
    · rfl
  · rcases processMqttTagGroup_cases env.mqtt v with
      ⟨impl, -, -, hpoll⟩ | ⟨-, ok, v', impl, hinit, -, hpoll⟩
    · rw [hpoll, pollMqttTags_stops]
    · have hstops : v.stops = v'.stops := congrArg (fun x => x.2.stops) hinit
      rw [hpoll]
      split
      · rw [pollMqttTags_stops, hstops]
      · exact hstops.symm
  · unfold Visit.processSoftPlcTagGroup
    split
    · rfl
    split
    · rfl
    · rfl
    · rfl
  all_goals
    refine absorb_stops (v := v.withGroup _) fun out hout => ?_
    obtain ⟨tagName, tag, -, rfl⟩ := mem_outs _ hout
    exact (pollPlcTag_ends env.plc v.group tagName tag).2

/-- A poll leaves the times as they are. -/
theorem processTagGroup_times (env : Env V) :
    (v.processTagGroup env).group.pollingInterval = v.group.pollingInterval ∧
      (v.processTagGroup env).group.time = v.group.time := by
  unfold Visit.processTagGroup
  split
  · exact ⟨rfl, rfl⟩
  split
  · obtain ⟨_, _, _, _, _, hgroup⟩ := v.processOpcUaTagGroup_uaOf env.ua
    rw [hgroup]
    exact ⟨rfl, rfl⟩
  · obtain ⟨_, _, _, hgroup⟩ := v.processAdsTagGroup_group env.ads
    rw [hgroup]
    exact ⟨rfl, rfl⟩
  · obtain ⟨_, _, _, hgroup⟩ := v.ofRtde_group (Rtde.processRtdeTagGroup env.rtde v.group.toRtde)
    rw [hgroup]
    exact ⟨rfl, rfl⟩
  · obtain ⟨_, _, _, _, hgroup⟩ := v.processMqttTagGroup_group env.mqtt
    rw [hgroup]
    exact ⟨rfl, rfl⟩
  · obtain ⟨_, _, hgroup⟩ := v.processSoftPlcTagGroup_group env.softPlc
    rw [hgroup]
    exact ⟨rfl, rfl⟩
  · exact ⟨rfl, rfl⟩
  · exact ⟨rfl, rfl⟩

/-- `process_tag_group` is a poll of the registry's, with what the backend made of it. -/
theorem Visit.known_processTagGroup (env : Env V) (hruns : v.stops = false) :
    ∃ o, (v.processTagGroup env).group.known = v.group.known.poll o ∧
      (v.processTagGroup env).stops = v.group.known.pollStops o := by
  by_cases herror : v.group.hasError = true
  · have herror' : v.group.known.hasError = true := herror
    have hnothing : v.processTagGroup env = v := by
      rw [Visit.processTagGroup, if_pos herror]
    refine ⟨noPoll, ?_, ?_⟩
    · rw [hnothing, Comms.TagGroup.poll, if_pos herror']
    · rw [hnothing, hruns, Comms.TagGroup.pollStops, herror']
      rfl
  · have herror : v.group.hasError = false := Bool.eq_false_iff.mpr herror
    obtain ⟨hpolling, htime⟩ := processTagGroup_times (v := v) env
    obtain ⟨o, hpoll, hstops⟩ := exists_polled (g := v.group.known)
      (v.processTagGroup env).group.known herror hpolling htime
      (v.processTagGroup_protocol env) (names_processTagGroup env herror)
      (v.processTagGroup env).stops
    have herror' : v.group.known.hasError = false := herror
    refine ⟨o, hpoll.symm, ?_⟩
    rw [Comms.TagGroup.pollStops, herror', hstops]
    show _ = (!false && decide (v.group.protocol = .opcUa) && _)
    by_cases hprotocol : v.group.protocol = .opcUa
    · rw [decide_eq_true hprotocol]
      rfl
    · rw [processTagGroup_stops env hprotocol, hruns, Bool.and_false]

end

end OipComms.Backend
