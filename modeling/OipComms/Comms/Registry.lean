import Std.Data.ExtTreeMap
import OipComms.Rtde.Group

/-!
# The registry of tag groups

The data of the class `OIPComms` that its two threads share: the registered tag groups, the queue
of writes, the queue of group names the work thread waits on, and the two switches. Each function
here runs without a break; `Worker.lean` says how the threads interleave them.

A group keeps its tags in the container its protocol selects, and the protocol stays what it was
registered with, so one field stands for the six containers of the source. What a backend makes of
a poll or a write is the environment's choice. Times are exact, in microseconds: the source divides
the microseconds of a frame as a `float` and adds the quotients as `double`s.
-/

namespace OipComms.Comms

open Rtde (parseTagIndex)

universe u

/-- The values of a group's `protocol`; all but six of them are left to libplctag. -/
inductive Protocol
  | opcUa
  | ads
  | rtde
  | mqtt
  | softPlc
  | s7
  | plctag (name : CStr)
  deriving DecidableEq, Repr

/-- The protocols whose tags are in an object that is created when it is first needed. -/
def Protocol.hasImpl : Protocol → Bool
  | .ads | .rtde | .mqtt | .softPlc => true
  | _ => false

/-- The `TagType` of a registration, as far as it is looked at. -/
inductive TagType
  | bool | int8 | uint8 | int16 | uint16 | int32 | uint32 | int64 | uint64 | float32 | float64
  deriving DecidableEq, Repr

/-- The registers a Modbus value takes. -/
def TagType.modbusCount : TagType → Int
  | .int32 | .uint32 | .float32 => 2
  | .int64 | .uint64 | .float64 => 4
  | _ => 1

/-- A tag. The backends other than libplctag and S7 use `initialized` only. -/
structure Tag where
  initialized : Bool := false
  tagPointer : Int := -1
  elemCount : Int := 0
  dirty : Bool := false
  deriving DecidableEq, Repr

abbrev TagMap := Std.ExtTreeMap CStr Tag

/-- `TagGroup`; `tags` is `none` for an object that is not there. The values a group has that was
never registered are those `operator[]` gives it. -/
structure TagGroup where
  pollingInterval : Int := 0
  time : Int := 0
  initCount : Nat := 0
  initCountEmitted : Bool := false
  hasError : Bool := false
  protocol : Protocol := .plctag []
  tags : Option TagMap := some ∅
  needsSessionRecoveredSignal : Bool := false

/-- `std::map<String, TagGroup>`. -/
abbrev Groups := Std.ExtTreeMap CStr TagGroup

/-- `WriteRequest`. -/
structure WriteRequest (V : Type u) where
  instruction : Nat
  tagGroupName : CStr
  tagName : CStr
  value : V
  deriving DecidableEq, Repr

/-- What the two threads share. -/
structure State (V : Type u) where
  tagGroups : Groups := ∅
  tagGroupOrder : List CStr := []
  writeQueue : List (WriteRequest V) := []
  tagGroupQueue : List CStr := []
  startupTimer : Int := 0
  lastTicks : UInt64 := 0
  enableComms : Bool := true
  simRunning : Bool := false

variable {V : Type u}

/-- The name that stands for a clean-up in the queue of group names. -/
def cleanupToken : CStr := "_CLEANUP_TAG_GROUPS".toList

/-! ## Registration -/

/-- `tag_group_exists`. -/
def State.tagGroupExists (s : State V) (name : CStr) : Bool := s.tagGroups.contains name

/-- The test `tag_exists` makes on a group. -/
def TagGroup.has (g : TagGroup) (tagName : CStr) : Bool := g.tags.any fun tags => tags.contains tagName

/-- `tag_exists`. -/
def State.tagExists (s : State V) (name tagName : CStr) : Bool :=
  s.tagGroups[name]?.any fun g => g.has tagName

/-- `register_tag_group`. -/
def State.registerTagGroup (s : State V) (name : CStr) (pollingInterval : Int)
    (protocol : Protocol) : State V :=
  if name = [] then s
  else
    let tagGroup : TagGroup :=
      { pollingInterval := pollingInterval, time := 1000 * pollingInterval, protocol := protocol
        tags := if protocol.hasImpl then none else some ∅ }
    { s with
      tagGroups := s.tagGroups.insert name tagGroup
      tagGroupOrder :=
        if s.tagGroupExists name then s.tagGroupOrder else s.tagGroupOrder ++ [name] }

/-- The names a protocol takes. -/
def Protocol.accepts : Protocol → CStr → Bool
  | .rtde, tagName => (parseTagIndex tagName).isSome
  | .mqtt, tagName => !(tagName.contains '+' || tagName.contains '#')
  | _, _ => true

/-- The tag a registration makes. -/
def Protocol.newTag : Protocol → TagType → Tag
  | .plctag name, ty => { elemCount := if name = "modbus_tcp".toList then ty.modbusCount else 1 }
  | .s7, _ => { elemCount := 1 }
  | _, _ => {}

/-- A group with a tag more, in an object that is there afterwards. -/
def TagGroup.insertTag (g : TagGroup) (tagName : CStr) (tag : Tag) : TagGroup :=
  { g with tags := some ((g.tags.getD ∅).insert tagName tag) }

/-- The branches of `register_tag` for a tag that does not exist. The RTDE object is created before
the name is looked at. -/
def TagGroup.register (g : TagGroup) (tagName : CStr) (ty : TagType) : Bool × TagGroup :=
  if g.protocol.accepts tagName then (true, g.insertTag tagName (g.protocol.newTag ty))
  else if g.protocol = .rtde then (false, { g with tags := some (g.tags.getD ∅) })
  else (false, g)

/-- `register_tag`. -/
def State.registerTag (s : State V) (name tagName : CStr) (ty : TagType) : Bool × State V :=
  if name = [] ∨ tagName = [] then (false, s)
  else
    match s.tagGroups[name]? with
    | none => (false, s)
    | some g =>
      if g.has tagName then (true, s)
      else
        let (ok, g) := g.register tagName ty
        (ok, { s with tagGroups := s.tagGroups.insert name g })

/-- A registration that is answered with true. -/
def State.Registrable (s : State V) (name tagName : CStr) : Prop :=
  name ≠ [] ∧ tagName ≠ [] ∧
    s.tagGroups[name]?.any (fun g => g.has tagName || g.protocol.accepts tagName) = true

instance (s : State V) (name tagName : CStr) : Decidable (s.Registrable name tagName) := by
  unfold State.Registrable
  infer_instance

/-! ## Clean-up -/

/-- `cleanup_tag_group`. -/
def TagGroup.cleanup (g : TagGroup) : TagGroup :=
  { g with
    tags := if g.protocol.hasImpl then none else some ∅
    needsSessionRecoveredSignal := if g.protocol = .opcUa then false else g.needsSessionRecoveredSignal
    initCount := 0
    initCountEmitted := false
    hasError := false }

/-- `cleanup_tag_groups`. -/
def State.cleanupTagGroups (s : State V) : State V :=
  { s with tagGroups := s.tagGroups.map fun _ g => g.cleanup }

/-- `clear_tag_groups`. -/
def State.clearTagGroups (s : State V) : State V :=
  if s.simRunning then s
  else { s.cleanupTagGroups with tagGroups := ∅, tagGroupOrder := [] }

/-- `queue_tag_group`. -/
def State.queueTagGroup (s : State V) (name : CStr) : State V :=
  { s with tagGroupQueue := s.tagGroupQueue ++ [name] }

/-- `set_sim_running` up to its push, and the name it then pushes. -/
def State.setSimRunning (s : State V) (value : Bool) : Option CStr × State V :=
  (if value then none else some cleanupToken, { s with simRunning := value })

/-! ## Frames -/

/-- The signals of a frame. -/
inductive Signal
  | tagGroupPolled (name : CStr)
  | tagGroupInitialized (name : CStr)
  | opcUaSessionRecovered (name : CStr)
  deriving DecidableEq, Repr

/-- `register_wait_time`. -/
def registerWaitTime : Int := 500000

/-- The group's time has come. -/
def TagGroup.due (g : TagGroup) (delta : Int) : Bool := 1000 * g.pollingInterval ≤ g.time + delta

/-- The count `init_count` is held against. There is no branch for `soft_plc`. -/
def TagGroup.totalTagCount (g : TagGroup) : Nat :=
  if g.protocol = .softPlc then 0 else (g.tags.getD ∅).size

/-- A group that announces its initialisation in this frame. -/
def TagGroup.announces (g : TagGroup) (startupTimer : Int) : Bool :=
  registerWaitTime ≤ startupTimer && !g.initCountEmitted && g.totalTagCount ≤ g.initCount

/-- A group that announces its recovery in this frame. -/
def TagGroup.recovers (g : TagGroup) : Bool :=
  g.needsSessionRecoveredSignal && g.totalTagCount ≤ g.initCount

/-- A group after a frame. -/
def TagGroup.frame (g : TagGroup) (delta startupTimer : Int) : TagGroup :=
  { g with
    time := if g.due delta then 0 else g.time + delta
    initCountEmitted := g.initCountEmitted || g.announces startupTimer
    needsSessionRecoveredSignal := g.needsSessionRecoveredSignal && !g.recovers }

/-- The signals of a group in a frame. -/
def TagGroup.signals (g : TagGroup) (name : CStr) (delta startupTimer : Int) : List Signal :=
  (if g.due delta then [.tagGroupPolled name] else []) ++
    (if g.announces startupTimer then [.tagGroupInitialized name] else []) ++
    (if g.recovers then [.opcUaSessionRecovered name] else [])

/-- The time since the last frame. -/
def State.delta (s : State V) (ticks : UInt64) : Int := (ticks - s.lastTicks).toNat

/-- The groups a frame queues, in the order of the map. -/
def State.dueNames (s : State V) (ticks : UInt64) : List CStr :=
  if s.enableComms && s.simRunning then
    (s.tagGroups.toList.filter fun x => x.2.due (s.delta ticks)).map Prod.fst
  else []

/-- `process`: the signals it emits, and what it leaves. -/
def State.process (s : State V) (ticks : UInt64) : List Signal × State V :=
  if s.enableComms && s.simRunning then
    (s.tagGroups.toList.flatMap fun x => x.2.signals x.1 (s.delta ticks) s.startupTimer,
      { s with
        tagGroups := s.tagGroups.map fun _ g => g.frame (s.delta ticks) s.startupTimer
        tagGroupQueue := s.tagGroupQueue ++ s.dueNames ticks
        startupTimer :=
          if s.startupTimer ≤ registerWaitTime + 500000 then s.startupTimer + s.delta ticks
          else s.startupTimer
        lastTicks := ticks })
  else ([], { s with startupTimer := 0 })

/-! ## Writes and polls -/

/-- `write_*` takes the request. -/
def State.takes (s : State V) (w : WriteRequest V) : Bool :=
  s.enableComms && s.simRunning && s.tagExists w.tagGroupName w.tagName

/-- `write_*` up to its second push, and the name it then pushes to wake the work thread. -/
def State.write (s : State V) (w : WriteRequest V) : Option CStr × State V :=
  if s.takes w then (some [], { s with writeQueue := s.writeQueue ++ [w] }) else (none, s)

/-- What a backend makes of a write: whether an OPC UA client was there to look the tag up, whether
libplctag or S7 took the value, and whether the OPC UA session was found dead. -/
structure Handed where
  connected : Bool
  taken : Bool
  dead : Bool
  deriving DecidableEq, Repr

/-- `invalidate_opc_ua_session`. -/
def TagGroup.invalidateOpcUaSession (g : TagGroup) : TagGroup :=
  { g with
    tags := g.tags.map fun tags => tags.map fun _ tag => { tag with initialized := false }
    initCount := 0
    hasError := false
    needsSessionRecoveredSignal := true }

/-- The group of a write after it was handed to its backend. The look-ups with `operator[]` create
the tag that is not there. -/
def TagGroup.handed (g : TagGroup) (tagName : CStr) (o : Handed) : TagGroup :=
  match g.protocol with
  | .opcUa =>
    if o.connected then
      let found := (g.tags.bind fun tags => tags[tagName]?).any Tag.initialized
      let g := { g with tags := g.tags.map fun tags => tags.insertIfNew tagName {} }
      if found && o.dead then g.invalidateOpcUaSession else g
    else g
  | .ads | .rtde | .mqtt | .softPlc => g
  | .s7 | .plctag _ =>
    { g with tags := g.tags.map fun tags =>
        let tag := (tags[tagName]?).getD {}
        tags.insert tagName { tag with dirty := tag.dirty || o.taken } }

/-- The protocols whose writes look the tag up with `operator[]`. -/
def TagGroup.looksUp (g : TagGroup) (o : Handed) : Bool :=
  match g.protocol with
  | .opcUa => o.connected
  | .ads | .rtde | .mqtt | .softPlc => false
  | .s7 | .plctag _ => true

/-- `process_write`. The look-up with `operator[]` creates the group that is not there. -/
def State.processWrite (s : State V) (w : WriteRequest V) (o : Handed) : State V :=
  let g := (s.tagGroups[w.tagGroupName]?).getD {}
  { s with tagGroups := s.tagGroups.insert w.tagGroupName (g.handed w.tagName o) }

/-- What a backend makes of a poll: what it does to each tag and to the counts, whether its object
is created, and whether an OPC UA group finds a tag so wrong that the simulation is stopped. -/
structure Polled where
  tag : CStr → Tag → Tag
  initCount : Nat
  initCountEmitted : Bool
  hasError : Bool
  needsSessionRecoveredSignal : Bool
  creates : Bool
  stops : Bool

/-- `process_tag_group` on its group. A poll looks its tags up in the container it goes through, so
it adds none and takes none away. -/
def TagGroup.poll (g : TagGroup) (o : Polled) : TagGroup :=
  if g.hasError then g
  else
    { g with
      tags :=
        match g.tags with
        | some tags => some (tags.map o.tag)
        | none => if o.creates then some ∅ else none
      initCount := o.initCount
      initCountEmitted := o.initCountEmitted
      hasError := o.hasError
      needsSessionRecoveredSignal := o.needsSessionRecoveredSignal }

/-- A poll that stops the simulation. -/
def TagGroup.pollStops (g : TagGroup) (o : Polled) : Bool :=
  !g.hasError && g.protocol = .opcUa && o.stops

/-- The part of `process_work` that polls: only while the simulation runs, and only a group that is
there. With it the name that a poll which stops the simulation then pushes. -/
def State.processTagGroup (s : State V) (name : CStr) (o : Polled) : Option CStr × State V :=
  if s.simRunning then
    match s.tagGroups[name]? with
    | some g =>
      let s' := { s with tagGroups := s.tagGroups.insert name (g.poll o) }
      if g.pollStops o then s'.setSimRunning false else (none, s')
    | none => (none, s)
  else (none, s)

/-! ## What becomes of the queues -/

section
variable (s : State V)

theorem registerTagGroup_queue (name : CStr) (pollingInterval : Int) (protocol : Protocol) :
    (s.registerTagGroup name pollingInterval protocol).tagGroupQueue = s.tagGroupQueue := by
  unfold State.registerTagGroup
  split <;> rfl

theorem registerTag_queue (name tagName : CStr) (ty : TagType) :
    (s.registerTag name tagName ty).2.tagGroupQueue = s.tagGroupQueue := by
  unfold State.registerTag
  split
  · rfl
  · cases s.tagGroups[name]? with
    | none => rfl
    | some g =>
      simp only
      split <;> rfl

theorem clearTagGroups_queue : s.clearTagGroups.tagGroupQueue = s.tagGroupQueue := by
  unfold State.clearTagGroups
  split <;> rfl

/-- A frame queues the groups that are due. -/
theorem process_queue (ticks : UInt64) :
    (s.process ticks).2.tagGroupQueue = s.tagGroupQueue ++ s.dueNames ticks := by
  unfold State.process State.dueNames
  split
  · rfl
  · exact (List.append_nil _).symm

theorem write_queue (w : WriteRequest V) : (s.write w).2.tagGroupQueue = s.tagGroupQueue := by
  unfold State.write
  split <;> rfl

theorem processTagGroup_queue (name : CStr) (o : Polled) :
    (s.processTagGroup name o).2.tagGroupQueue = s.tagGroupQueue := by
  unfold State.processTagGroup
  split
  · cases s.tagGroups[name]? with
    | none => rfl
    | some g =>
      simp only
      split <;> rfl
  · rfl

/-- A registration leaves the writes and the flag. -/
theorem registerTag_frame (name tagName : CStr) (ty : TagType) :
    (s.registerTag name tagName ty).2.writeQueue = s.writeQueue ∧
      (s.registerTag name tagName ty).2.simRunning = s.simRunning := by
  unfold State.registerTag
  split
  · exact ⟨rfl, rfl⟩
  · cases s.tagGroups[name]? with
    | none => exact ⟨rfl, rfl⟩
    | some g =>
      simp only
      split <;> exact ⟨rfl, rfl⟩

/-- Clearing the groups leaves the writes and the switch of the simulation. -/
theorem clearTagGroups_frame :
    s.clearTagGroups.writeQueue = s.writeQueue ∧ s.clearTagGroups.simRunning = s.simRunning := by
  unfold State.clearTagGroups
  split <;> exact ⟨rfl, rfl⟩

/-- A poll leaves the writes, and the flag unless it stops the simulation. -/
theorem processTagGroup_frame (name : CStr) (o : Polled) :
    (s.processTagGroup name o).2.writeQueue = s.writeQueue ∧
      ((s.processTagGroup name o).1 = none →
        (s.processTagGroup name o).2.simRunning = s.simRunning) := by
  unfold State.processTagGroup
  split
  · cases s.tagGroups[name]? with
    | none => exact ⟨rfl, fun _ => rfl⟩
    | some g =>
      simp only
      split
      · exact ⟨rfl, fun hnone => nomatch hnone⟩
      · exact ⟨rfl, fun _ => rfl⟩
  · exact ⟨rfl, fun _ => rfl⟩

end

/-! ## What becomes of a tag -/

/-- A tag exists if its group is there and has it. -/
theorem tagExists_iff {s : State V} {name tagName : CStr} :
    s.tagExists name tagName = true ↔ ∃ g, s.tagGroups[name]? = some g ∧ g.has tagName = true := by
  rw [State.tagExists]
  cases s.tagGroups[name]? with
  | none => simp only [Option.any_none, Bool.false_eq_true, reduceCtorEq, false_and, exists_false]
  | some g => simp only [Option.any_some, Option.some.injEq, exists_eq_left']

/-- A group has a tag if its container is there with the tag in it. -/
theorem has_iff {g : TagGroup} {tagName : CStr} :
    g.has tagName = true ↔ ∃ tags, g.tags = some tags ∧ tagName ∈ tags := by
  rw [TagGroup.has]
  cases g.tags with
  | none => simp only [Option.any_none, Bool.false_eq_true, reduceCtorEq, false_and, exists_false]
  | some tags => simp only [Option.any_some, Std.ExtTreeMap.contains_iff_mem, Option.some.injEq,
      exists_eq_left']

/-- One group replaced by one that has the tags it had. -/
theorem tagExists_insert {s : State V} {name tagName : CStr} (h : s.tagExists name tagName = true)
    {other : CStr} {g' : TagGroup}
    (hkeep : ∀ g, s.tagGroups[other]? = some g → g.has tagName = true → g'.has tagName = true)
    {s' : State V} (hs' : s'.tagGroups = s.tagGroups.insert other g') :
    s'.tagExists name tagName = true := by
  obtain ⟨g, hg, hhas⟩ := tagExists_iff.mp h
  apply tagExists_iff.mpr
  rw [hs', Std.ExtTreeMap.getElem?_insert]
  by_cases heq : other = name
  · subst heq
    refine ⟨g', ?_, hkeep g hg hhas⟩
    rw [if_pos Std.ReflCmp.compare_self]
  · refine ⟨g, ?_, hhas⟩
    rw [if_neg (fun hcmp => heq (Std.LawfulEqCmp.eq_of_compare hcmp)), hg]

/-- A tag more. -/
theorem has_insertTag {g : TagGroup} {tagName other : CStr} {tag : Tag} :
    (g.insertTag tagName tag).has other = true ↔ other = tagName ∨ g.has other = true := by
  rw [TagGroup.has, TagGroup.insertTag, Option.any_some, Std.ExtTreeMap.contains_iff_mem,
    Std.ExtTreeMap.mem_insert, Std.compare_eq_iff_eq, has_iff, eq_comm]
  apply or_congr_right
  cases g.tags with
  | none => simp only [Option.getD_none, Std.ExtTreeMap.not_mem_empty, reduceCtorEq, false_and,
      exists_false]
  | some tags => simp only [Option.getD_some, Option.some.injEq, exists_eq_left']

/-- Handing over a write takes no tag away, and adds the one it looks up. -/
theorem has_handed {g : TagGroup} {tagName other : CStr} {o : Handed} :
    (g.handed tagName o).has other = true ↔
      g.has other = true ∨ g.tags.isSome = true ∧ g.looksUp o = true ∧ other = tagName := by
  have hkept : g.looksUp o = false → (g.has other = true ↔
      g.has other = true ∨ g.tags.isSome = true ∧ g.looksUp o = true ∧ other = tagName) := by
    intro hnot
    simp only [hnot, Bool.false_eq_true, false_and, and_false, or_false]
  have hadded : g.looksUp o = true → ∀ add : TagMap → TagMap,
      (∀ tags : TagMap, other ∈ add tags ↔ other ∈ tags ∨ other = tagName) →
      (({ g with tags := g.tags.map add } : TagGroup).has other = true ↔
        g.has other = true ∨ g.tags.isSome = true ∧ g.looksUp o = true ∧ other = tagName) := by
    intro hyes add hadd
    rw [has_iff, has_iff]
    cases g.tags with
    | none => simp only [Option.map_none, reduceCtorEq, false_and, exists_false,
        Option.isSome_none, Bool.false_eq_true, or_self]
    | some tags => simp only [Option.map_some, Option.some.injEq, exists_eq_left', hadd,
        Option.isSome_some, hyes, true_and]
  have hinvalidated : ∀ g : TagGroup, g.invalidateOpcUaSession.has other = g.has other := by
    intro g
    rw [TagGroup.has, TagGroup.invalidateOpcUaSession, TagGroup.has]
    cases g.tags with
    | none => rfl
    | some tags => exact Std.ExtTreeMap.contains_map
  have hinsert : ∀ (tags : TagMap) (tag : Tag),
      other ∈ tags.insert tagName tag ↔ other ∈ tags ∨ other = tagName := by
    intro tags tag
    rw [Std.ExtTreeMap.mem_insert, Std.compare_eq_iff_eq, or_comm, eq_comm]
  have hnew : ∀ (tags : TagMap) (tag : Tag),
      other ∈ tags.insertIfNew tagName tag ↔ other ∈ tags ∨ other = tagName := by
    intro tags tag
    rw [Std.ExtTreeMap.mem_insertIfNew, Std.compare_eq_iff_eq, or_comm, eq_comm]
  unfold TagGroup.handed
  cases hprotocol : g.protocol with
  | opcUa =>
    simp only
    split
    · rename_i hconnected
      have hlooks : g.looksUp o = true := by
        rw [TagGroup.looksUp, hprotocol]
        exact hconnected
      split
      · rw [hinvalidated]
        exact hadded hlooks _ fun tags => hnew tags {}
      · exact hadded hlooks _ fun tags => hnew tags {}
    · rename_i hconnected
      refine hkept ?_
      rw [TagGroup.looksUp, hprotocol]
      exact Bool.eq_false_iff.mpr hconnected
  | ads | rtde | mqtt | softPlc =>
    refine hkept ?_
    rw [TagGroup.looksUp, hprotocol]
  | s7 =>
    refine hadded ?_ _ fun tags => hinsert tags _
    rw [TagGroup.looksUp, hprotocol]
  | plctag name =>
    refine hadded ?_ _ fun tags => hinsert tags _
    rw [TagGroup.looksUp, hprotocol]

/-- A poll adds no tag and takes none away. -/
theorem has_poll {g : TagGroup} {other : CStr} {o : Polled} :
    (g.poll o).has other = true ↔ g.has other = true := by
  unfold TagGroup.poll
  by_cases herr : g.hasError = true
  · rw [if_pos herr]
  · rw [if_neg herr, has_iff, has_iff]
    cases g.tags with
    | none =>
      simp only [reduceCtorEq, false_and, exists_false, iff_false]
      rintro ⟨tags, hcreated, hmem⟩
      split at hcreated
      · obtain rfl := Option.some.inj hcreated
        exact Std.ExtTreeMap.not_mem_empty hmem
      · cases hcreated
    | some tags => simp only [Option.some.injEq, exists_eq_left', Std.ExtTreeMap.mem_map]

/-- A registration adds the tag if its name is taken, and nothing else. -/
theorem has_register {g : TagGroup} {tagName other : CStr} {ty : TagType} :
    (g.register tagName ty).2.has other = true ↔
      (g.register tagName ty).1 = true ∧ other = tagName ∨ g.has other = true := by
  unfold TagGroup.register
  split
  · simp only [has_insertTag, true_and]
  · split
    · simp only [Bool.false_eq_true, false_and, false_or]
      rw [has_iff, has_iff]
      cases g.tags with
      | none => simp only [Option.getD_none, Option.some.injEq, exists_eq_left',
          Std.ExtTreeMap.not_mem_empty, reduceCtorEq, false_and, exists_false]
      | some tags => simp only [Option.getD_some]
    · simp only [Bool.false_eq_true, false_and, false_or]

/-- `register_tag` answers with true where a tag can be registered, and then it is there. -/
theorem registerTag_true {s : State V} {name tagName : CStr} (ty : TagType)
    (h : s.Registrable name tagName) :
    (s.registerTag name tagName ty).1 = true ∧
      (s.registerTag name tagName ty).2.tagExists name tagName = true := by
  obtain ⟨hname, htagName, hgroup⟩ := h
  cases hg : s.tagGroups[name]? with
  | none =>
    rw [hg] at hgroup
    cases hgroup
  | some g =>
    rw [hg, Option.any_some, Bool.or_eq_true] at hgroup
    have hnames : ¬ (name = [] ∨ tagName = []) := fun hnil => hnil.elim hname htagName
    simp only [State.registerTag, if_neg hnames, hg]
    by_cases hhas : g.has tagName = true
    · rw [if_pos hhas]
      exact ⟨rfl, tagExists_iff.mpr ⟨g, hg, hhas⟩⟩
    · rw [if_neg hhas, TagGroup.register, if_pos (hgroup.resolve_left hhas)]
      refine ⟨rfl, tagExists_iff.mpr ⟨_, Std.ExtTreeMap.getElem?_insert_self, ?_⟩⟩
      exact has_insertTag.mpr (.inl rfl)

/-- A tag that cannot be registered is refused. -/
theorem registerTag_false {s : State V} {name tagName : CStr} (ty : TagType)
    (h : ¬ s.Registrable name tagName) : (s.registerTag name tagName ty).1 = false := by
  unfold State.registerTag
  by_cases hnames : name = [] ∨ tagName = []
  · rw [if_pos hnames]
  · rw [if_neg hnames]
    cases hg : s.tagGroups[name]? with
    | none => rfl
    | some g =>
      have hrefused : ¬ (g.has tagName || g.protocol.accepts tagName) = true := by
        intro hyes
        refine h ⟨fun hnil => hnames (.inl hnil), fun hnil => hnames (.inr hnil), ?_⟩
        rw [hg]
        exact hyes
      rw [Bool.or_eq_true, not_or] at hrefused
      simp only [if_neg hrefused.1, TagGroup.register, if_neg hrefused.2]
      split <;> rfl

/-- A tag stays when another is registered. -/
theorem tagExists_registerTag {s : State V} {name tagName : CStr}
    (h : s.tagExists name tagName = true) (other otherTag : CStr) (ty : TagType) :
    (s.registerTag other otherTag ty).2.tagExists name tagName = true := by
  unfold State.registerTag
  split
  · exact h
  · cases hg : s.tagGroups[other]? with
    | none => exact h
    | some g =>
      simp only
      split
      · exact h
      · refine tagExists_insert h ?_ rfl
        intro g' hg' hhas
        obtain rfl := Option.some.inj (hg.symm.trans hg')
        exact has_register.mpr (.inr hhas)

theorem tagExists_registerTagGroup {s : State V} {name tagName other : CStr}
    (h : s.tagExists name tagName = true) (hne : name ≠ other) (pollingInterval : Int)
    (protocol : Protocol) :
    (s.registerTagGroup other pollingInterval protocol).tagExists name tagName = true := by
  obtain ⟨g, hg, hhas⟩ := tagExists_iff.mp h
  unfold State.registerTagGroup
  split
  · exact h
  · refine tagExists_iff.mpr ⟨g, ?_, hhas⟩
    rw [Std.ExtTreeMap.getElem?_insert, if_neg, hg]
    rw [Std.compare_eq_iff_eq]
    exact fun heq => hne heq.symm

theorem tagExists_process {s : State V} {name tagName : CStr} (h : s.tagExists name tagName = true)
    (ticks : UInt64) : (s.process ticks).2.tagExists name tagName = true := by
  obtain ⟨g, hg, hhas⟩ := tagExists_iff.mp h
  unfold State.process
  split
  · refine tagExists_iff.mpr ⟨g.frame (s.delta ticks) s.startupTimer, ?_, hhas⟩
    rw [Std.ExtTreeMap.getElem?_map, hg, Option.map_some]
  · exact h

theorem tagExists_processWrite {s : State V} {name tagName : CStr}
    (h : s.tagExists name tagName = true) (w : WriteRequest V) (o : Handed) :
    (s.processWrite w o).tagExists name tagName = true := by
  refine tagExists_insert h ?_ rfl
  intro g hg hhas
  rw [hg]
  exact has_handed.mpr (.inl hhas)

theorem tagExists_processTagGroup {s : State V} {name tagName : CStr}
    (h : s.tagExists name tagName = true) (other : CStr) (o : Polled) :
    (s.processTagGroup other o).2.tagExists name tagName = true := by
  unfold State.processTagGroup
  split
  · cases hg : s.tagGroups[other]? with
    | none => exact h
    | some g =>
      have hkeep : ∀ g', s.tagGroups[other]? = some g' → g'.has tagName = true →
          (g.poll o).has tagName = true := by
        intro g' hg' hhas
        obtain rfl := Option.some.inj (hg.symm.trans hg')
        exact has_poll.mpr hhas
      simp only
      split
      · exact tagExists_insert h hkeep rfl
      · exact tagExists_insert h hkeep rfl
  · exact h

end OipComms.Comms
