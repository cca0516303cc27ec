import OipComms.Backend.Ads
import OipComms.Backend.Mqtt
import OipComms.Backend.OpcUa
import OipComms.Backend.Plc
import OipComms.Backend.SoftPlc

/-!
# What happens to a group

The functions that look at a group's protocol and leave the rest to its backend, and the list of
all that can happen to a group that is registered.
-/

namespace OipComms.Backend

open Comms (TagType)

/-- What the libraries answer in a poll. -/
structure Env (V : Type) where
  plc : PlcEnv := {}
  ua : UaEnv := {}
  ads : AdsEnv := {}
  rtde : CStr → Except String Rtde.Socket := fun _ => .error ""
  mqtt : MqttEnv := {}
  softPlc : SoftPlcEnv V := {}

/-- What they answer in a write; `written` is that libplctag or the S7 library took the value. -/
structure WriteEnv where
  ua : UaWriteEnv := {}
  written : Bool := true

variable {V : Type}

/-! ## Polls -/

/-- `process_tag_group`. -/
def Visit.processTagGroup (env : Env V) (v : Visit V) : Visit V :=
  if v.group.hasError then v
  else
    match v.group.protocol with
    | .opcUa => v.processOpcUaTagGroup env.ua
    | .ads => v.processAdsTagGroup env.ads
    | .rtde => v.ofRtde (Rtde.processRtdeTagGroup env.rtde v.group.toRtde)
    | .mqtt => v.processMqttTagGroup env.mqtt
    | .softPlc => v.processSoftPlcTagGroup env.softPlc
    | .s7 | .plctag _ => v.processPlcTagGroup env.plc

/-- A poll leaves the protocol as it is. -/
theorem Visit.processTagGroup_protocol (env : Env V) (v : Visit V) :
    (v.processTagGroup env).group.protocol = v.group.protocol := by
  unfold Visit.processTagGroup
  split
  · rfl
  split
  · obtain ⟨_, _, _, _, _, hgroup⟩ := v.processOpcUaTagGroup_uaOf env.ua
    rw [hgroup]
  · obtain ⟨_, _, _, hgroup⟩ := v.processAdsTagGroup_group env.ads
    rw [hgroup]
  · exact v.ofRtde_protocol _
  · obtain ⟨_, _, _, _, hgroup⟩ := v.processMqttTagGroup_group env.mqtt
    rw [hgroup]
  · exact v.processSoftPlcTagGroup_protocol env.softPlc
  · rfl
  · rfl

/-! ## Writes -/

/-- The type of a value by the instruction that writes it. -/
def instructionType : Nat → Option TagType
  | 0 => some .bool
  | 1 => some .uint64
  | 2 => some .int64
  | 3 => some .uint32
  | 4 => some .int32
  | 5 => some .uint16
  | 6 => some .int16
  | 7 => some .uint8
  | 8 => some .int8
  | 9 => some .float64
  | 10 => some .float32
  | _ => none

/-- The part of `process_write` for the libraries that keep values. The look-up with `operator[]`
creates the tag that is not there. -/
def TagGroup.plcTagSet (g : TagGroup V) (written : Bool) (tagName : CStr) : TagGroup V :=
  let tag := (g.plcTags[tagName]?).getD {}
  { g with
    plcTags := g.plcTags.insert tagName
      { tag with dirty := tag.dirty || (0 ≤ tag.tagPointer && written) } }

/-- `process_write` on its group. What an ADS device or an MQTT broker is sent leaves the group as
it is. -/
def Visit.processWrite [Rtde.GodotVariant V] (env : WriteEnv) (v : Visit V)
    (w : Comms.WriteRequest V) : Visit V :=
  match v.group.protocol, instructionType w.instruction with
  | .opcUa, some ty => v.opcTagSet env.ua w.tagName ty
  | .rtde, some _ => v.ofRtde (Rtde.rtdeTagSet w.tagName w.value v.group.toRtde)
  | .softPlc, some _ => v.withGroup (v.group.softPlcSet w.tagName w.value)
  | .s7, _ | .plctag _, _ => v.withGroup (v.group.plcTagSet env.written w.tagName)
  | .ads, _ | .mqtt, _ | .opcUa, none | .rtde, none | .softPlc, none => v

/-! ## Reads -/

/-- The bytes of a type that is read. -/
def typeSize : TagType → Nat
  | .bool | .int8 | .uint8 => 1
  | .int16 | .uint16 => 2
  | .int32 | .uint32 | .float32 => 4
  | .int64 | .uint64 | .float64 => 8

/-- What `read_*` leaves of the group of a tag that exists: a value of another type sets
`has_error`. -/
def TagGroup.readTag (g : TagGroup V) (tagName : CStr) (ty : TagType) : TagGroup V :=
  if g.hasError then g
  else
    match g.protocol with
    | .opcUa =>
      match g.opcUaTags[tagName]? with
      | none => g
      | some tag =>
        if tag.initialized && tag.value.any fun valueType => valueType ≠ .scalar ty then g.errs
        else g
    | .ads =>
      match g.adsImpl.bind fun impl => impl.tags[tagName]? with
      | none => g
      | some tag => if tag.initialized && tag.value.length ≠ typeSize ty then g.errs else g
    | .rtde | .mqtt | .softPlc | .s7 | .plctag _ => g

theorem readTag_cases (g : TagGroup V) (tagName : CStr) (ty : TagType) :
    g.readTag tagName ty = g ∨ g.readTag tagName ty = g.errs := by
  unfold TagGroup.readTag
  split
  · exact .inl rfl
  split
  · split
    · exact .inl rfl
    split
    · exact .inr rfl
    · exact .inl rfl
  · split
    · exact .inl rfl
    split
    · exact .inr rfl
    · exact .inl rfl
  all_goals exact .inl rfl

/-! ## All that can happen -/

/-- What can happen to a group. -/
inductive GroupOp (V : Type)
  | registerTag (tagName : CStr) (ty : TagType)
  | poll (env : Env V)
  | write (env : WriteEnv) (w : Comms.WriteRequest V)
  | read (tagName : CStr) (ty : TagType)
  | message (topic : CStr) (payload : List UInt8)
  | setSoftPlcProgram (source : CStr)
  | setSoftPlcWatchEnabled (enabled : Bool)
  | frame (delta startupTimer : Int)
  | cleanup

/-- It happens. -/
def Visit.apply [Rtde.GodotVariant V] (v : Visit V) : GroupOp V → Visit V
  | .registerTag tagName ty => if v.group.has tagName then v else (v.registerTag tagName ty).2
  | .poll env => v.processTagGroup env
  | .write env w => v.processWrite env w
  | .read tagName ty => v.withGroup (v.group.readTag tagName ty)
  | .message topic payload => v.withGroup (v.group.mqttMessageArrived topic payload)
  | .setSoftPlcProgram source => v.setSoftPlcProgram source
  | .setSoftPlcWatchEnabled enabled => v.setSoftPlcWatchEnabled enabled
  | .frame delta startupTimer => v.withGroup (v.group.frame delta startupTimer)
  | .cleanup => v.cleanup

theorem Visit.registerTag_protocol (v : Visit V) (tagName : CStr) (ty : TagType) :
    (v.registerTag tagName ty).2.group.protocol = v.group.protocol := by
  unfold Visit.registerTag
  split
  · rfl
  · rfl
  · exact v.ofRtde_protocol _
  · split
    · rfl
    · rfl
  · rfl
  · rfl
  · rfl

theorem Visit.processWrite_protocol [Rtde.GodotVariant V] (env : WriteEnv) (v : Visit V)
    (w : Comms.WriteRequest V) : (v.processWrite env w).group.protocol = v.group.protocol := by
  unfold Visit.processWrite
  split
  · obtain ⟨_, _, _, _, _, hgroup⟩ := v.opcTagSet_uaOf env.ua w.tagName _
    rw [hgroup]
  · exact v.ofRtde_protocol _
  · obtain ⟨_, hgroup⟩ := softPlcSet_group v.group w.tagName w.value
    rw [hgroup]
    rfl
  all_goals rfl

/-- Whatever happens to a group, it keeps its protocol. -/
theorem Visit.apply_protocol [Rtde.GodotVariant V] (v : Visit V) (op : GroupOp V) :
    (v.apply op).group.protocol = v.group.protocol := by
  cases op with
  | registerTag tagName ty =>
    show (if _ then v else _).group.protocol = _
    split
    · rfl
    · exact v.registerTag_protocol tagName ty
  | poll env => exact v.processTagGroup_protocol env
  | write env w => exact v.processWrite_protocol env w
  | read tagName ty =>
    show (v.group.readTag tagName ty).protocol = _
    rcases readTag_cases v.group tagName ty with hread | hread
    · rw [hread]
    · rw [hread]
      rfl
  | message topic payload =>
    show (v.group.mqttMessageArrived topic payload).protocol = _
    rcases mqttMessageArrived_cases v.group topic payload with hsame | ⟨_, _, -, -, hnew⟩
    · rw [hsame]
    · rw [hnew]
  | setSoftPlcProgram source | setSoftPlcWatchEnabled enabled | frame delta startupTimer => rfl
  | cleanup => exact v.cleanup_protocol

/-- The object of a soft PLC group after what happens to the group. -/
theorem softPlcImpl_apply [Rtde.GodotVariant V] {v : Visit V} (hprotocol : v.group.protocol = .softPlc)
    (op : GroupOp V) :
    (v.apply op).group.softPlcImpl =
      match op with
      | .registerTag tagName ty =>
        if v.group.has tagName then v.group.softPlcImpl
        else some { v.softPlc.1 with tags := v.softPlc.1.tags.insert tagName { dataType := ty } }
      | .poll env =>
        if v.group.hasError then v.group.softPlcImpl
        else (v.processSoftPlcTagGroup env.softPlc).group.softPlcImpl
      | .write _ w =>
        if (instructionType w.instruction).isSome then
          (v.group.softPlcSet w.tagName w.value).softPlcImpl
        else v.group.softPlcImpl
      | .setSoftPlcProgram source =>
        some { v.softPlc.1 with programSource := source, initialized := false }
      | .setSoftPlcWatchEnabled enabled => some { v.softPlc.1 with watchEnabled := enabled }
      | .cleanup => none
      | .read _ _ | .message _ _ | .frame _ _ => v.group.softPlcImpl := by
  cases op with
  | registerTag tagName ty =>
    simp only [Visit.apply, Visit.registerTag, hprotocol]
    split
    · rfl
    · rfl
  | poll env =>
    simp only [Visit.apply, Visit.processTagGroup, hprotocol]
    split
    · rfl
    · rfl
  | write env w =>
    simp only [Visit.apply, Visit.processWrite, hprotocol]
    cases instructionType w.instruction with
    | none => rfl
    | some ty => rfl
  | read tagName ty =>
    simp only [Visit.apply, Visit.withGroup]
    rcases readTag_cases v.group tagName ty with hread | hread
    · rw [hread]
    · rw [hread]
      rfl
  | message topic payload =>
    simp only [Visit.apply, Visit.withGroup]
    rcases mqttMessageArrived_cases v.group topic payload with hsame | ⟨_, _, -, -, hnew⟩
    · rw [hsame]
    · rw [hnew]
  | cleanup =>
    simp only [Visit.apply, Visit.cleanup, Visit.release, hprotocol]
    rfl
  | setSoftPlcProgram source | setSoftPlcWatchEnabled enabled | frame delta startupTimer => rfl

/-- The object of a group of another protocol: nothing looks at it but the calls that do not look at
the protocol. -/
theorem softPlcImpl_apply_other [Rtde.GodotVariant V] {v : Visit V}
    (hprotocol : v.group.protocol ≠ .softPlc) (op : GroupOp V) :
    (v.apply op).group.softPlcImpl =
      match op with
      | .setSoftPlcProgram source =>
        some { v.softPlc.1 with programSource := source, initialized := false }
      | .setSoftPlcWatchEnabled enabled => some { v.softPlc.1 with watchEnabled := enabled }
      | .registerTag _ _ | .poll _ | .write _ _ | .read _ _ | .message _ _ | .frame _ _
      | .cleanup => v.group.softPlcImpl := by
  have hrtde : ∀ r, (v.ofRtde r).group.softPlcImpl = v.group.softPlcImpl := by
    intro r
    obtain ⟨_, _, _, hgroup⟩ := v.ofRtde_group r
    rw [hgroup]
  cases op with
  | registerTag tagName ty =>
    show (if _ then v else _).group.softPlcImpl = _
    split
    · rfl
    unfold Visit.registerTag
    split
    · rfl
    · rfl
    · exact hrtde _
    · split
      · rfl
      · rfl
    · rename_i hsoft
      exact absurd hsoft hprotocol
    · rfl
    · rfl
  | poll env =>
    show (v.processTagGroup env).group.softPlcImpl = _
    unfold Visit.processTagGroup
    split
    · rfl
    split
    · obtain ⟨_, _, _, _, _, hgroup⟩ := v.processOpcUaTagGroup_uaOf env.ua
      rw [hgroup]
    · obtain ⟨_, _, _, hgroup⟩ := v.processAdsTagGroup_group env.ads
      rw [hgroup]
    · exact hrtde _
    · obtain ⟨_, _, _, _, hgroup⟩ := v.processMqttTagGroup_group env.mqtt
      rw [hgroup]
    · rename_i hsoft
      exact absurd hsoft hprotocol
    · rfl
    · rfl
  | write env w =>
    show (v.processWrite env w).group.softPlcImpl = _
    unfold Visit.processWrite
    split
    · obtain ⟨_, _, _, _, _, hgroup⟩ := v.opcTagSet_uaOf env.ua w.tagName _
      rw [hgroup]
    · exact hrtde _
    · rename_i hsoft _
      exact absurd hsoft hprotocol
    all_goals rfl
  | read tagName ty =>
    show (v.group.readTag tagName ty).softPlcImpl = _
    rcases readTag_cases v.group tagName ty with hread | hread
    · rw [hread]
    · rw [hread]
      rfl
  | message topic payload =>
    show (v.group.mqttMessageArrived topic payload).softPlcImpl = _
    rcases mqttMessageArrived_cases v.group topic payload with hsame | ⟨_, _, -, -, hnew⟩
    · rw [hsame]
    · rw [hnew]
  | setSoftPlcProgram source | setSoftPlcWatchEnabled enabled | frame delta startupTimer => rfl
  | cleanup =>
    show v.cleanup.group.softPlcImpl = _
    unfold Visit.cleanup Visit.release
    split
    · rfl
    · rfl
    · rfl
    · rfl
    · rename_i hsoft
      exact absurd hsoft hprotocol
    · rfl
    · rfl

/-- The visit of a group that begins with what happens. -/
def TagGroup.after [Rtde.GodotVariant V] (g : TagGroup V) (next : Nat) (op : GroupOp V) : Visit V :=
  Visit.apply { group := g, next := next } op

end OipComms.Backend
