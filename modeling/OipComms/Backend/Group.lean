import Mathlib.Algebra.Order.Group.Multiset
import OipComms.Comms.Registry
import OipComms.Lib.Sweep

/-!
# A tag group with its backends

`Comms/Registry.lean` leaves to the environment what a backend makes of a poll or a write. Here a
tag group is whole: the six containers of tags, the clients and objects it points to, and what each
backend does with them. What the libraries answer is still the environment's.

An object on the heap and a client of a library have an address, and no two have the same: a poll is
given the first free one. A call that hands out something the group must give back, gives it back,
reads or writes an OPC UA variable, or runs the soft PLC is kept in the order it is made. What a
`unique_ptr` owns goes with its owner.
-/

namespace OipComms.Backend

open Comms (Protocol TagType)

/-- What a group gets and has to give back: the tags, clients and programs of the libraries, and the
objects the code makes with `new`. A program is created in the engine of an object. -/
inductive Resource
  | plcTag (handle : Int)
  | s7Tag (handle : Int)
  | uaClient (address : Nat)
  | adsImpl (address : Nat)
  | rtdeImpl (address : Nat)
  | mqttImpl (address : Nat)
  | mqttClient (address : Nat)
  | softPlcImpl (address : Nat)
  | program (engine : Nat) (handle : Int)
  deriving DecidableEq, Repr

/-- A node id, with the client whose session it was resolved in. -/
structure NodeId where
  session : Nat
  text : CStr
  deriving DecidableEq, Repr

/-- The calls that are kept. -/
inductive LibCall (V : Type)
  | acquire (r : Resource)
  | release (r : Resource)
  | uaRead (client : Nat) (node : Option NodeId)
  | uaWrite (client : Nat) (node : Option NodeId)
  | softCreate (source : CStr) (handle : Int)
  | softStep (handle : Int) (inputs : List (CStr × V)) (dt : Rat)
  deriving DecidableEq

/-! ## Tags -/

/-- `PlcTag` has the fields of the tag of the registry. -/
abbrev PlcTag := Comms.Tag

/-- The type of a `UA_Variant`. -/
inductive UaType
  | scalar (ty : TagType)
  | other
  deriving DecidableEq, Repr

/-- `OpcUaTag`; of its value the type is looked at. -/
structure OpcUaTag where
  initialized : Bool := false
  nodeId : Option NodeId := none
  value : Option UaType := none
  deriving DecidableEq, Repr

/-- `AdsTagEntry`. -/
structure AdsTagEntry where
  initialized : Bool := false
  handle : Option UInt32 := none
  size : Nat := 0
  value : List UInt8 := []
  dirty : Bool := false
  deriving DecidableEq, Repr

/-- `MqttTagEntry`. -/
structure MqttTagEntry where
  subscribed : Bool := false
  hasData : Bool := false
  value : List UInt8 := []
  deriving DecidableEq, Repr

/-- `SoftPlcTagEntry`; a value that is NIL is none. -/
structure SoftPlcTagEntry (V : Type) where
  value : Option V := none
  dataType : TagType := .bool
  isInput : Bool := false
  isOutput : Bool := false
  deriving DecidableEq

/-! ## Objects -/

/-- `AdsTagGroupImpl`; of the device it is only known whether it is there. -/
structure AdsTagGroupImpl where
  address : Nat
  client : Bool := false
  tags : Std.ExtTreeMap CStr AdsTagEntry := ∅

/-- `RtdeTagGroupImpl` on the heap. -/
structure RtdeObject where
  address : Nat
  impl : Rtde.RtdeTagGroupImpl := {}

/-- `MqttTagGroupImpl`. -/
structure MqttTagGroupImpl where
  address : Nat
  client : Option Nat := none
  tags : Std.ExtTreeMap CStr MqttTagEntry := ∅
  serverUri : CStr := []
  clientId : CStr := []
  username : CStr := []
  password : CStr := []

/-- `SoftPlcEngine`: the programs created in it, which it frees with itself. -/
structure SoftPlcEngine where
  programs : List Int := []

/-- `SoftPlcTagGroupImpl`. -/
structure SoftPlcTagGroupImpl (V : Type) where
  address : Nat
  engine : Option SoftPlcEngine := none
  tags : Std.ExtTreeMap CStr (SoftPlcTagEntry V) := ∅
  programSource : CStr := []
  handle : Int := 0
  bundleLoaded : Bool := false
  initialized : Bool := false
  lastPhysFrame : UInt64 := 0
  watchEnabled : Bool := false
  watchImage : List (CStr × V) := []

/-- `TagGroup`. The values a group has that was never registered are those `operator[]` gives it. -/
structure TagGroup (V : Type) where
  pollingInterval : Int := 0
  time : Int := 0
  initCount : Nat := 0
  initCountEmitted : Bool := false
  hasError : Bool := false
  protocol : Protocol := .plctag []
  gateway : CStr := []
  path : CStr := []
  cpu : CStr := []
  plcTags : Std.ExtTreeMap CStr PlcTag := ∅
  client : Option Nat := none
  opcUaTags : Std.ExtTreeMap CStr OpcUaTag := ∅
  adsImpl : Option AdsTagGroupImpl := none
  rtdeImpl : Option RtdeObject := none
  mqttImpl : Option MqttTagGroupImpl := none
  softPlcImpl : Option (SoftPlcTagGroupImpl V) := none
  needsSessionRecoveredSignal : Bool := false

/-! ## Visits -/

/-- What a turn of a backend on one tag adds: what it counts, whether it sets `has_error`, stops the
simulation or finds the session dead, and the calls it makes. -/
structure Effect (V : Type) where
  counted : Nat := 0
  failed : Bool := false
  stops : Bool := false
  dead : Bool := false
  calls : List (LibCall V) := []

/-- A group while it is worked on, with the next free address and what was done so far: the calls
made, and whether the simulation was stopped or an OPC UA session invalidated. -/
structure Visit (V : Type) where
  group : TagGroup V
  next : Nat
  calls : List (LibCall V) := []
  stops : Bool := false
  invalidated : Bool := false

variable {V : Type}

/-- The visit goes on with another group. -/
def Visit.withGroup (v : Visit V) (g : TagGroup V) : Visit V := { v with group := g }

/-- Calls are made. -/
def Visit.makes (v : Visit V) (calls : List (LibCall V)) : Visit V :=
  { v with calls := v.calls ++ calls }

/-- What the turns on the tags of the group add up to. -/
def Visit.absorb (v : Visit V) (outs : List (Effect V)) : Visit V :=
  { v with
    group := { v.group with
      initCount := v.group.initCount + (outs.map Effect.counted).sum
      hasError := v.group.hasError || outs.any Effect.failed }
    calls := v.calls ++ outs.flatMap Effect.calls
    stops := v.stops || outs.any Effect.stops }

/-- No object is deleted where there is none. -/
@[simp] theorem Visit.absorb_nil (v : Visit V) : v.absorb [] = v := by
  simp only [Visit.absorb, List.map_nil, List.sum_nil, List.any_nil, List.flatMap_nil, Bool.or_false,
    Nat.add_zero, List.append_nil]

/-- What the turns add up to, one after the other. -/
theorem Visit.absorb_cons (v : Visit V) (out : Effect V) (outs : List (Effect V)) :
    v.absorb (out :: outs) = (v.absorb [out]).absorb outs := by
  simp only [Visit.absorb, List.map_cons, List.sum_cons, List.any_cons, List.flatMap_cons,
    List.map_nil, List.sum_nil, List.any_nil, List.flatMap_nil, Bool.or_false, Bool.or_assoc,
    Nat.add_assoc, Nat.add_zero, List.append_assoc, List.append_nil]

/-- `has_error` is set. -/
def TagGroup.errs (g : TagGroup V) : TagGroup V := { g with hasError := true }

/-- The protocols whose tags are in `plc_tags`. -/
def isPlc : Protocol → Bool
  | .s7 | .plctag _ => true
  | _ => false

/-! ## Registration -/

/-- The group `register_tag_group` puts in the map. -/
def TagGroup.registered (pollingInterval : Int) (protocol : Protocol) (gateway path cpu : CStr) :
    TagGroup V :=
  { pollingInterval := pollingInterval, time := 1000 * pollingInterval, protocol := protocol
    gateway := gateway, path := path, cpu := cpu }

/-- The look-up of `tag_exists` in the group's container. -/
def TagGroup.has (g : TagGroup V) (tagName : CStr) : Bool :=
  match g.protocol with
  | .opcUa => g.opcUaTags.contains tagName
  | .ads => g.adsImpl.any fun impl => impl.tags.contains tagName
  | .rtde => g.rtdeImpl.any fun object => object.impl.tags.contains tagName
  | .mqtt => g.mqttImpl.any fun impl => impl.tags.contains tagName
  | .softPlc => g.softPlcImpl.any fun impl => impl.tags.contains tagName
  | .s7 | .plctag _ => g.plcTags.contains tagName

/-- The object of a group, made if it is not there: the object, the calls and the next address. -/
def getOrNew {β : Type} (object : Option β) (new : Nat → β) (resource : Nat → Resource)
    (next : Nat) : β × List (LibCall V) × Nat :=
  match object with
  | some b => (b, [], next)
  | none => (new next, [.acquire (resource next)], next + 1)

/-- `ads_impl`, made if it is not there. -/
def Visit.ads (v : Visit V) : AdsTagGroupImpl × Visit V :=
  let (impl, calls, next) := getOrNew v.group.adsImpl (fun a => { address := a }) .adsImpl v.next
  (impl, { v with group := { v.group with adsImpl := some impl }, next := next }.makes calls)

/-- `rtde_impl`, made if it is not there. -/
def Visit.rtde (v : Visit V) : RtdeObject × Visit V :=
  let (object, calls, next) :=
    getOrNew v.group.rtdeImpl (fun a => { address := a }) .rtdeImpl v.next
  (object, { v with group := { v.group with rtdeImpl := some object }, next := next }.makes calls)

/-- `mqtt_impl`, made if it is not there. -/
def Visit.mqtt (v : Visit V) : MqttTagGroupImpl × Visit V :=
  let (impl, calls, next) := getOrNew v.group.mqttImpl (fun a => { address := a }) .mqttImpl v.next
  (impl, { v with group := { v.group with mqttImpl := some impl }, next := next }.makes calls)

/-- `soft_plc_impl`, made if it is not there. -/
def Visit.softPlc (v : Visit V) : SoftPlcTagGroupImpl V × Visit V :=
  let (impl, calls, next) :=
    getOrNew v.group.softPlcImpl (fun a => { address := a }) .softPlcImpl v.next
  (impl, { v with group := { v.group with softPlcImpl := some impl }, next := next }.makes calls)

/-- The tags of the objects, none where there is no object. -/
def TagGroup.adsTags (g : TagGroup V) : Std.ExtTreeMap CStr AdsTagEntry :=
  (g.adsImpl.map AdsTagGroupImpl.tags).getD ∅

def TagGroup.mqttTags (g : TagGroup V) : Std.ExtTreeMap CStr MqttTagEntry :=
  (g.mqttImpl.map MqttTagGroupImpl.tags).getD ∅

def TagGroup.softPlcTags (g : TagGroup V) : Std.ExtTreeMap CStr (SoftPlcTagEntry V) :=
  (g.softPlcImpl.map SoftPlcTagGroupImpl.tags).getD ∅

/-! What follows says of each object that it is there and nothing is done, or that it is made at the
next free address. -/

/-- The ADS object is there, or a new one is made. -/
theorem Visit.ads_cases (v : Visit V) :
    v.group.adsImpl = some v.ads.1 ∧ v.ads.2 = v ∨
      v.group.adsImpl = none ∧ v.ads = ({ address := v.next },
        { v with
          group := { v.group with adsImpl := some { address := v.next } }
          next := v.next + 1 }.makes [.acquire (.adsImpl v.next)]) := by
  obtain ⟨group, next, calls, stops, invalidated⟩ := v
  unfold Visit.ads
  cases h : group.adsImpl with
  | none => exact .inr ⟨rfl, rfl⟩
  | some b =>
    refine .inl ⟨rfl, ?_⟩
    simp only [getOrNew, Visit.makes, List.append_nil, ← h]

theorem Visit.rtde_cases (v : Visit V) :
    v.group.rtdeImpl = some v.rtde.1 ∧ v.rtde.2 = v ∨
      v.group.rtdeImpl = none ∧ v.rtde = ({ address := v.next },
        { v with
          group := { v.group with rtdeImpl := some { address := v.next } }
          next := v.next + 1 }.makes [.acquire (.rtdeImpl v.next)]) := by
  obtain ⟨group, next, calls, stops, invalidated⟩ := v
  unfold Visit.rtde
  cases h : group.rtdeImpl with
  | none => exact .inr ⟨rfl, rfl⟩
  | some b =>
    refine .inl ⟨rfl, ?_⟩
    simp only [getOrNew, Visit.makes, List.append_nil, ← h]

theorem Visit.mqtt_cases (v : Visit V) :
    v.group.mqttImpl = some v.mqtt.1 ∧ v.mqtt.2 = v ∨
      v.group.mqttImpl = none ∧ v.mqtt = ({ address := v.next },
        { v with
          group := { v.group with mqttImpl := some { address := v.next } }
          next := v.next + 1 }.makes [.acquire (.mqttImpl v.next)]) := by
  obtain ⟨group, next, calls, stops, invalidated⟩ := v
  unfold Visit.mqtt
  cases h : group.mqttImpl with
  | none => exact .inr ⟨rfl, rfl⟩
  | some b =>
    refine .inl ⟨rfl, ?_⟩
    simp only [getOrNew, Visit.makes, List.append_nil, ← h]

theorem Visit.softPlc_cases (v : Visit V) :
    v.group.softPlcImpl = some v.softPlc.1 ∧ v.softPlc.2 = v ∨
      v.group.softPlcImpl = none ∧ v.softPlc = ({ address := v.next },
        { v with
          group := { v.group with softPlcImpl := some { address := v.next } }
          next := v.next + 1 }.makes [.acquire (.softPlcImpl v.next)]) := by
  obtain ⟨group, next, calls, stops, invalidated⟩ := v
  unfold Visit.softPlc
  cases h : group.softPlcImpl with
  | none => exact .inr ⟨rfl, rfl⟩
  | some b =>
    refine .inl ⟨rfl, ?_⟩
    simp only [getOrNew, Visit.makes, List.append_nil, ← h]

/-- An object just made has no tags, as a group without the object. -/
theorem Visit.ads_tags (v : Visit V) : v.ads.1.tags = v.group.adsTags := by
  rw [TagGroup.adsTags]
  rcases v.ads_cases with ⟨hsome, -⟩ | ⟨hnone, hnew⟩
  · rw [hsome]
    rfl
  · rw [hnone, hnew]
    rfl

/-- A new MQTT object has the tags of the group: none. -/
theorem Visit.mqtt_tags (v : Visit V) : v.mqtt.1.tags = v.group.mqttTags := by
  rw [TagGroup.mqttTags]
  rcases v.mqtt_cases with ⟨hsome, -⟩ | ⟨hnone, hnew⟩
  · rw [hsome]
    rfl
  · rw [hnone, hnew]
    rfl

/-- A new ADS object has no device. -/
theorem Visit.ads_client (v : Visit V) :
    v.ads.1.client = v.group.adsImpl.any AdsTagGroupImpl.client := by
  rcases v.ads_cases with ⟨hsome, -⟩ | ⟨hnone, hnew⟩
  · rw [hsome]
    rfl
  · rw [hnone, hnew]
    rfl

/-- What an RTDE group sees of the group. -/
def TagGroup.toRtde (g : TagGroup V) : Rtde.TagGroup where
  pollingInterval := g.pollingInterval
  gateway := g.gateway
  initCount := g.initCount
  hasError := g.hasError
  rtdeImpl := g.rtdeImpl.map RtdeObject.impl

/-- The group as the RTDE group leaves it. -/
def Visit.ofRtde (v : Visit V) (r : Rtde.TagGroup) : Visit V :=
  let v := v.withGroup { v.group with initCount := r.initCount, hasError := r.hasError }
  match r.rtdeImpl with
  | none => v.withGroup { v.group with rtdeImpl := none }
  | some impl =>
    let (object, v) := v.rtde
    v.withGroup { v.group with rtdeImpl := some { object with impl := impl } }

/-- What the RTDE group then sees is what it left. -/
theorem Visit.ofRtde_toRtde (v : Visit V) (r : Rtde.TagGroup) :
    (v.ofRtde r).group.toRtde =
      { r with pollingInterval := v.group.pollingInterval, gateway := v.group.gateway } := by
  obtain ⟨pollingInterval, gateway, initCount, hasError, rtdeImpl⟩ := r
  cases rtdeImpl with
  | none => rfl
  | some impl => rfl

/-- The RTDE functions change the object, the count and the error of a group. -/
theorem Visit.ofRtde_group (v : Visit V) (r : Rtde.TagGroup) :
    ∃ rtdeImpl initCount hasError, (v.ofRtde r).group =
      { v.group with rtdeImpl := rtdeImpl, initCount := initCount, hasError := hasError } := by
  unfold Visit.ofRtde
  cases r.rtdeImpl with
  | none => exact ⟨_, _, _, rfl⟩
  | some impl => exact ⟨_, _, _, rfl⟩

theorem Visit.ofRtde_protocol (v : Visit V) (r : Rtde.TagGroup) :
    (v.ofRtde r).group.protocol = v.group.protocol := by
  obtain ⟨_, _, _, hgroup⟩ := v.ofRtde_group r
  rw [hgroup]

/-- The branches of `register_tag` for a tag that does not exist. -/
def Visit.registerTag (v : Visit V) (tagName : CStr) (ty : TagType) : Bool × Visit V :=
  match v.group.protocol with
  | .opcUa =>
    (true, v.withGroup { v.group with opcUaTags := v.group.opcUaTags.insert tagName {} })
  | .ads =>
    let (impl, v) := v.ads
    let impl := { impl with tags := impl.tags.insert tagName {} }
    (true, v.withGroup { v.group with adsImpl := some impl })
  | .rtde =>
    let (ok, r) := Rtde.registerTag tagName v.group.toRtde
    (ok, v.ofRtde r)
  | .mqtt =>
    if tagName.contains '+' || tagName.contains '#' then (false, v)
    else
      let (impl, v) := v.mqtt
      let impl := { impl with tags := impl.tags.insert tagName {} }
      (true, v.withGroup { v.group with mqttImpl := some impl })
  | .softPlc =>
    let (impl, v) := v.softPlc
    let impl := { impl with tags := impl.tags.insert tagName { dataType := ty } }
    (true, v.withGroup { v.group with softPlcImpl := some impl })
  | .s7 | .plctag _ =>
    (true, v.withGroup { v.group with
      plcTags := v.group.plcTags.insert tagName (v.group.protocol.newTag ty) })

/-! ## The account of what is handed out -/

/-- What a list of calls was handed. -/
def acquired (calls : List (LibCall V)) : Multiset Resource :=
  calls.filterMap fun
    | .acquire r => some r
    | _ => none

/-- What a list of calls gave back. -/
def released (calls : List (LibCall V)) : Multiset Resource :=
  calls.filterMap fun
    | .release r => some r
    | _ => none

/-- What is given back. -/
def releases (rs : List Resource) : List (LibCall V) := rs.map .release

section
variable (calls calls' : List (LibCall V)) (rs : List Resource)

@[simp] theorem acquired_nil : acquired ([] : List (LibCall V)) = 0 := rfl

@[simp] theorem released_nil : released ([] : List (LibCall V)) = 0 := rfl

@[simp] theorem acquired_append : acquired (calls ++ calls') = acquired calls + acquired calls' := by
  rw [acquired, List.filterMap_append]
  rfl

@[simp] theorem released_append : released (calls ++ calls') = released calls + released calls' := by
  rw [released, List.filterMap_append]
  rfl

@[simp] theorem acquired_releases : acquired (releases rs : List (LibCall V)) = 0 := by
  induction rs with
  | nil => rfl
  | cons r rs ih => exact ih

@[simp] theorem released_releases : released (releases rs : List (LibCall V)) = rs := by
  induction rs with
  | nil => rfl
  | cons r rs ih => exact congrArg (Multiset.cons r) ih

end

/-! ## What a group holds -/

/-- The handle of a tag of libplctag or of the S7 library. -/
def plcResource (protocol : Protocol) (handle : Int) : Resource :=
  if protocol = .s7 then .s7Tag handle else .plcTag handle

/-- What a PLC tag holds: a handle, unless creating it failed. -/
def plcTagHolds (protocol : Protocol) (tag : PlcTag) : List Resource :=
  if 0 ≤ tag.tagPointer then [plcResource protocol tag.tagPointer] else []

def AdsTagGroupImpl.holds (impl : AdsTagGroupImpl) : List Resource := [.adsImpl impl.address]

def RtdeObject.holds (object : RtdeObject) : List Resource := [.rtdeImpl object.address]

def MqttTagGroupImpl.holds (impl : MqttTagGroupImpl) : List Resource :=
  impl.client.toList.map .mqttClient ++ [.mqttImpl impl.address]

/-- The programs an engine frees. -/
def SoftPlcTagGroupImpl.created (impl : SoftPlcTagGroupImpl V) : List Int :=
  (impl.engine.map SoftPlcEngine.programs).getD []

/-- What can be reached from `soft_plc_impl`: of the programs, the one in `handle`. -/
def SoftPlcTagGroupImpl.holds (impl : SoftPlcTagGroupImpl V) : List Resource :=
  (if 0 < impl.handle then [.program impl.address impl.handle] else []) ++
    [.softPlcImpl impl.address]

/-- What goes with `soft_plc_impl`. -/
def SoftPlcTagGroupImpl.frees (impl : SoftPlcTagGroupImpl V) : List Resource :=
  impl.created.map (.program impl.address) ++ [.softPlcImpl impl.address]

/-- `cleanup_tag_group` before it sets the counts back: the protocol says what is released. -/
def Visit.release (v : Visit V) : Visit V :=
  match v.group.protocol with
  | .opcUa =>
    (v.withGroup { v.group with
      client := none, opcUaTags := ∅, needsSessionRecoveredSignal := false }).makes
      (releases (v.group.client.toList.map .uaClient))
  | .rtde =>
    (v.withGroup { v.group with rtdeImpl := none }).makes
      (releases (v.group.rtdeImpl.toList.flatMap RtdeObject.holds))
  | .ads =>
    (v.withGroup { v.group with adsImpl := none }).makes
      (releases (v.group.adsImpl.toList.flatMap AdsTagGroupImpl.holds))
  | .mqtt =>
    (v.withGroup { v.group with mqttImpl := none }).makes
      (releases (v.group.mqttImpl.toList.flatMap MqttTagGroupImpl.holds))
  | .softPlc =>
    (v.withGroup { v.group with softPlcImpl := none }).makes
      (releases (v.group.softPlcImpl.toList.flatMap SoftPlcTagGroupImpl.frees))
  | .s7 | .plctag _ =>
    (v.withGroup { v.group with plcTags := ∅ }).makes
      (releases (v.group.plcTags.toList.flatMap fun x => plcTagHolds v.group.protocol x.2))

/-- `cleanup_tag_group`. -/
def Visit.cleanup (v : Visit V) : Visit V :=
  v.release.withGroup
    { v.release.group with initCount := 0, initCountEmitted := false, hasError := false }

theorem Visit.cleanup_protocol (v : Visit V) : v.cleanup.group.protocol = v.group.protocol := by
  unfold Visit.cleanup Visit.release
  cases hprotocol : v.group.protocol with
  | opcUa | ads | rtde | mqtt | softPlc | s7 | plctag name => exact hprotocol

/-! ## What a turn may do -/

/-- A turn counts a tag that becomes initialised, and accounts for what it is handed. -/
structure TurnLaw {τ : Type} (initialized : τ → Bool) (holds : τ → List Resource) (tag : τ)
    (r : Sweep.Swept τ (Effect V)) : Prop where
  counts : (if initialized tag then 1 else 0) + r.out.counted =
    if initialized r.entry then 1 else 0
  holds : (holds tag : Multiset Resource) + acquired r.out.calls =
    holds r.entry + released r.out.calls

/-! ## Frames -/

/-- The count `init_count` is held against. There is no branch for `soft_plc`. -/
def TagGroup.totalTagCount (g : TagGroup V) : Nat :=
  match g.protocol with
  | .opcUa => g.opcUaTags.size
  | .ads => (g.adsImpl.map fun impl => impl.tags.size).getD 0
  | .rtde => (g.rtdeImpl.map fun object => object.impl.tags.size).getD 0
  | .mqtt => (g.mqttImpl.map fun impl => impl.tags.size).getD 0
  | .softPlc | .s7 | .plctag _ => g.plcTags.size

/-- The group's time has come. -/
def TagGroup.due (g : TagGroup V) (delta : Int) : Bool := 1000 * g.pollingInterval ≤ g.time + delta

/-- A group that announces its initialisation in this frame. -/
def TagGroup.announces (g : TagGroup V) (startupTimer : Int) : Bool :=
  Comms.registerWaitTime ≤ startupTimer && !g.initCountEmitted && g.totalTagCount ≤ g.initCount

/-- A group that announces its recovery in this frame. -/
def TagGroup.recovers (g : TagGroup V) : Bool :=
  g.needsSessionRecoveredSignal && g.totalTagCount ≤ g.initCount

/-- A group after a frame. -/
def TagGroup.frame (g : TagGroup V) (delta startupTimer : Int) : TagGroup V :=
  { g with
    time := if g.due delta then 0 else g.time + delta
    initCountEmitted := g.initCountEmitted || g.announces startupTimer
    needsSessionRecoveredSignal := g.needsSessionRecoveredSignal && !g.recovers }

/-- The signals of a group in a frame. -/
def TagGroup.signals (g : TagGroup V) (name : CStr) (delta startupTimer : Int) :
    List Comms.Signal :=
  (if g.due delta then [.tagGroupPolled name] else []) ++
    (if g.announces startupTimer then [.tagGroupInitialized name] else []) ++
    (if g.recovers then [.opcUaSessionRecovered name] else [])

end OipComms.Backend
