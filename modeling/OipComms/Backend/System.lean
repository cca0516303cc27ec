import OipComms.Backend.Dispatch
import OipComms.Comms.Worker

/-!
# The threads and the backends

The machine of `Comms/Callers.lean` over whole groups: any number of calls may be under way, the
work thread goes round `process_work`, and messages come in on a thread of the MQTT library. Each
call up to its push, each write handed over, each clean-up and each poll is a step.

What a step does to the groups is a `Change`. An invariant of the groups that every operation on a
group keeps, holds in every state (`every_step`).
-/

namespace OipComms.Backend

open Comms (Protocol Signal TagType Work WriteRequest)
open Run

/-- What the threads share, the next free address, and all calls made so far. -/
structure State (V : Type) where
  tagGroups : Std.ExtTreeMap CStr (TagGroup V) := ∅
  tagGroupOrder : List CStr := []
  writeQueue : List (WriteRequest V) := []
  tagGroupQueue : List CStr := []
  startupTimer : Int := 0
  lastTicks : UInt64 := 0
  enableComms : Bool := true
  simRunning : Bool := false
  next : Nat := 0
  calls : List (LibCall V) := []

variable {V : Type}

/-- What a step does to the groups. -/
inductive Change (V : Type)
  | nothing
  | one (name : CStr) (op : GroupOp V)
  | all (op : GroupOp V)
  | register (name : CStr) (g : TagGroup V)
  | clear

/-- `tag_groups[name]`: a group that is not there is made. -/
def State.group (s : State V) (name : CStr) : TagGroup V := (s.tagGroups[name]?).getD {}

/-- A look-up finds a group that is there. -/
theorem State.group_of_some {s : State V} {name : CStr} {g : TagGroup V}
    (hget : s.tagGroups[name]? = some g) : s.group name = g := by
  rw [State.group, hget]
  rfl

/-- A look-up makes a group that is not there. -/
theorem State.group_of_none {s : State V} {name : CStr} (hget : s.tagGroups[name]? = none) :
    s.group name = {} := by
  rw [State.group, hget]
  rfl

section
variable [Rtde.GodotVariant V]

/-- The same happens to every group. -/
def State.changeAll (s : State V) (op : GroupOp V) : State V :=
  { s with
    tagGroups := s.tagGroups.map fun _ g => (g.after s.next op).group
    calls := s.calls ++ s.tagGroups.toList.flatMap fun x => (x.2.after s.next op).calls }

/-- The change is made. -/
def State.change (s : State V) : Change V → State V
  | .nothing => s
  | .one name op =>
    let v := (s.group name).after s.next op
    { s with
      tagGroups := s.tagGroups.insert name v.group, next := v.next, calls := s.calls ++ v.calls }
  | .all op => s.changeAll op
  | .register name g => { s with tagGroups := s.tagGroups.insert name g }
  | .clear => { s.changeAll .cleanup with tagGroups := ∅ }

end

/-- The groups a change is made to, each as it is before, with what happens to it. -/
def State.changed (s : State V) : Change V → List (CStr × TagGroup V × GroupOp V)
  | .nothing | .register _ _ => []
  | .one name op => [(name, s.group name, op)]
  | .all op => s.tagGroups.toList.map fun x => (x.1, x.2, op)
  | .clear => s.tagGroups.toList.map fun x => (x.1, x.2, .cleanup)

/-! ## Calls -/

/-- `tag_group_exists`. -/
def State.tagGroupExists (s : State V) (name : CStr) : Bool := s.tagGroups.contains name

/-- `tag_exists`. -/
def State.tagExists (s : State V) (name tagName : CStr) : Bool :=
  s.tagGroups[name]?.any fun g => g.has tagName

/-- `String::replace`, for at most `n` characters. -/
def replaceAll (what forwhat : CStr) : Nat → CStr → CStr
  | 0, s => s
  | _, [] => []
  | n + 1, c :: s =>
    if what.isPrefixOf (c :: s) then forwhat ++ replaceAll what forwhat n ((c :: s).drop what.length)
    else c :: replaceAll what forwhat n s

/-- The gateway a group is registered with. -/
def numericGateway (gateway : CStr) : CStr :=
  if (gateway.map Char.toLower).tails.any fun s => "localhost".toList.isPrefixOf s then
    replaceAll "localhost".toList "127.0.0.1".toList gateway.length gateway
  else gateway

section
variable [Rtde.GodotVariant V] (s : State V)

/-- `register_tag_group`. -/
def State.registerTagGroup (name : CStr) (pollingInterval : Int) (protocol : Protocol)
    (gateway path cpu : CStr) : State V :=
  if name = [] then s
  else
    let tagGroup := TagGroup.registered pollingInterval protocol (numericGateway gateway) path cpu
    { s.change (.register name tagGroup) with
      tagGroupOrder :=
        if s.tagGroupExists name then s.tagGroupOrder else s.tagGroupOrder ++ [name] }

/-- `register_tag`. -/
def State.registerTag (name tagName : CStr) (ty : TagType) : State V :=
  if name = [] ∨ tagName = [] then s
  else if s.tagGroupExists name then s.change (.one name (.registerTag tagName ty))
  else s

/-- `set_soft_plc_program`. -/
def State.setSoftPlcProgram (name source : CStr) : State V :=
  if s.tagGroupExists name then s.change (.one name (.setSoftPlcProgram source)) else s

/-- `set_soft_plc_watch_enabled`. -/
def State.setSoftPlcWatchEnabled (name : CStr) (enabled : Bool) : State V :=
  if s.tagGroupExists name then s.change (.one name (.setSoftPlcWatchEnabled enabled)) else s

/-- `read_*`, without its answer. -/
def State.read (name tagName : CStr) (ty : TagType) : State V :=
  if s.enableComms && s.simRunning && s.tagExists name tagName then
    s.change (.one name (.read tagName ty))
  else s

/-- `cleanup_tag_groups`. -/
def State.cleanupTagGroups : State V := s.change (.all .cleanup)

/-- `clear_tag_groups`. -/
def State.clearTagGroups : State V :=
  if s.simRunning then s else { s.change .clear with tagGroupOrder := [] }

/-- `mqtt_message_arrived`, with the group its object belongs to. -/
def State.mqttMessageArrived (name topic : CStr) (payload : List UInt8) : State V :=
  if s.tagGroupExists name then s.change (.one name (.message topic payload)) else s

/-- `queue_tag_group`. -/
def State.queueTagGroup (s : State V) (name : CStr) : State V :=
  { s with tagGroupQueue := s.tagGroupQueue ++ [name] }

/-- `set_sim_running` up to its push, and the name it then pushes. -/
def State.setSimRunning (s : State V) (value : Bool) : Option CStr × State V :=
  (if value then none else some Comms.cleanupToken, { s with simRunning := value })

/-- The time since the last frame. -/
def State.delta (s : State V) (ticks : UInt64) : Int := (ticks - s.lastTicks).toNat

/-- The groups a frame queues, in the order of the map. -/
def State.dueNames (s : State V) (ticks : UInt64) : List CStr :=
  if s.enableComms && s.simRunning then
    (s.tagGroups.toList.filter fun x => x.2.due (s.delta ticks)).map Prod.fst
  else []

/-- `process`: the signals it emits, and what it leaves. -/
def State.process (ticks : UInt64) : List Signal × State V :=
  if s.enableComms && s.simRunning then
    (s.tagGroups.toList.flatMap fun x => x.2.signals x.1 (s.delta ticks) s.startupTimer,
      { s.change (.all (.frame (s.delta ticks) s.startupTimer)) with
        tagGroupQueue := s.tagGroupQueue ++ s.dueNames ticks
        startupTimer :=
          if s.startupTimer ≤ Comms.registerWaitTime + 500000 then s.startupTimer + s.delta ticks
          else s.startupTimer
        lastTicks := ticks })
  else ([], { s with startupTimer := 0 })

/-- `write_*` takes the request. -/
def State.takes (s : State V) (w : WriteRequest V) : Bool :=
  s.enableComms && s.simRunning && s.tagExists w.tagGroupName w.tagName

/-- `write_*` up to its second push, and the name it then pushes to wake the work thread. -/
def State.write (s : State V) (w : WriteRequest V) : Option CStr × State V :=
  if s.takes w then (some [], { s with writeQueue := s.writeQueue ++ [w] }) else (none, s)

/-- `process_write`. -/
def State.processWrite (env : WriteEnv) (w : WriteRequest V) : State V :=
  s.change (.one w.tagGroupName (.write env w))

/-- The part of `process_work` that polls: only while the simulation runs, and only a group that is
there. With it the name that a poll which stops the simulation then pushes. -/
def State.processTagGroup (name : CStr) (env : Env V) : Option CStr × State V :=
  if s.simRunning && s.tagGroupExists name then
    let s' := s.change (.one name (.poll env))
    if ((s.group name).after s.next (.poll env)).stops then s'.setSimRunning false else (none, s')
  else (none, s)

end

/-! ## The machine -/

/-- The methods that are called. -/
inductive Call (V : Type)
  | registerTagGroup (name : CStr) (pollingInterval : Int) (protocol : Protocol)
      (gateway path cpu : CStr)
  | registerTag (name tagName : CStr) (ty : TagType)
  | setSoftPlcProgram (name source : CStr)
  | setSoftPlcWatchEnabled (name : CStr) (enabled : Bool)
  | setEnableComms (value : Bool)
  | setSimRunning (value : Bool)
  | process (ticks : UInt64)
  | write (w : WriteRequest V)
  | read (name tagName : CStr) (ty : TagType)
  | clearTagGroups

/-- A step: a call up to its push, the `i`-th of the pushes that wait, one of the work thread with
what the libraries answer if it gets to them, or a message. -/
inductive Label (V : Type)
  | call (c : Call V)
  | push (i : Nat)
  | work (write : WriteEnv) (poll : Env V)
  | message (name topic : CStr) (payload : List UInt8)

/-- The object, the names that calls under way have yet to push, and where the work thread stands in
`process_work`. -/
structure Machine (V : Type) where
  comms : State V := {}
  pushing : List CStr := []
  work : Work V := .pop

section
variable [Rtde.GodotVariant V]

/-- A call up to its push, and the name it then pushes. -/
def State.call (s : State V) : Call V → Option CStr × State V
  | .registerTagGroup name pollingInterval protocol gateway path cpu =>
    (none, s.registerTagGroup name pollingInterval protocol gateway path cpu)
  | .registerTag name tagName ty => (none, s.registerTag name tagName ty)
  | .setSoftPlcProgram name source => (none, s.setSoftPlcProgram name source)
  | .setSoftPlcWatchEnabled name enabled => (none, s.setSoftPlcWatchEnabled name enabled)
  | .setEnableComms value => (none, { s with enableComms := value })
  | .setSimRunning value => s.setSimRunning value
  | .process ticks => (none, (s.process ticks).2)
  | .write w => s.write w
  | .read name tagName ty => (none, s.read name tagName ty)
  | .clearTagGroups => (none, s.clearTagGroups)

/-- A step of `process_work`. The pop waits for a name. -/
def Machine.workStep (m : Machine V) (write : WriteEnv) (poll : Env V) : Machine V :=
  match m.work with
  | .pop =>
    match m.comms.tagGroupQueue with
    | [] => m
    | name :: rest =>
      { m with
        comms := { m.comms with tagGroupQueue := rest }
        work := .flush name (name = Comms.cleanupToken) }
  | .flush name first =>
    match m.comms.writeQueue with
    | [] => { m with work := if first then .cleanup name else .process name }
    | w :: rest =>
      { m with
        comms := { m.comms with writeQueue := rest }
        work := .handing name first w }
  | .handing name first w =>
    { m with
      comms := m.comms.processWrite write w
      work := .flush name first }
  | .cleanup name =>
    { m with
      comms := m.comms.cleanupTagGroups
      work := .flush name false }
  | .process name =>
    { m with
      comms := (m.comms.processTagGroup name poll).2
      work := ((m.comms.processTagGroup name poll).1.map .push).getD .pop }
  | .push name => { m with comms := m.comms.queueTagGroup name, work := .pop }

/-- A step of any of the threads. -/
def Machine.step (m : Machine V) : Label V → Machine V
  | .call c =>
    { m with
      comms := (m.comms.call c).2
      pushing := m.pushing ++ (m.comms.call c).1.toList }
  | .push i =>
    match m.pushing[i]? with
    | none => m
    | some name =>
      { m with comms := m.comms.queueTagGroup name, pushing := m.pushing.eraseIdx i }
  | .work write poll => m.workStep write poll
  | .message name topic payload =>
    { m with comms := m.comms.mqttMessageArrived name topic payload }

end

/-- A group with a tag in it, and a simulation that runs. -/
def started (name : CStr) (protocol : Protocol) (tagName : CStr) : List (Label V) :=
  [.call (.registerTagGroup name 100 protocol [] [] []), .call (.registerTag name tagName .bool),
    .call (.setSimRunning true)]

/-- A frame, and the work thread that polls what it queued: it pops the name, finds no write and
polls. -/
def frameAndPoll (ticks : UInt64) (env : Env V) : List (Label V) :=
  [.call (.process ticks), .work {} {}, .work {} {}, .work {} env]

/-! ## What a step does to the groups -/

/-- What a call does to the groups. -/
def State.callChange (s : State V) : Call V → Change V
  | .registerTagGroup name pollingInterval protocol gateway path cpu =>
    if name = [] then .nothing
    else
      .register name
        (TagGroup.registered pollingInterval protocol (numericGateway gateway) path cpu)
  | .registerTag name tagName ty =>
    if name = [] ∨ tagName = [] then .nothing
    else if s.tagGroupExists name then .one name (.registerTag tagName ty)
    else .nothing
  | .setSoftPlcProgram name source =>
    if s.tagGroupExists name then .one name (.setSoftPlcProgram source) else .nothing
  | .setSoftPlcWatchEnabled name enabled =>
    if s.tagGroupExists name then .one name (.setSoftPlcWatchEnabled enabled) else .nothing
  | .process ticks =>
    if s.enableComms && s.simRunning then .all (.frame (s.delta ticks) s.startupTimer)
    else .nothing
  | .read name tagName ty =>
    if s.enableComms && s.simRunning && s.tagExists name tagName then .one name (.read tagName ty)
    else .nothing
  | .clearTagGroups => if s.simRunning then .nothing else .clear
  | .setEnableComms _ | .setSimRunning _ | .write _ => .nothing

/-- What a step of the work thread does to the groups. -/
def Machine.workChange (m : Machine V) (write : WriteEnv) (poll : Env V) : Change V :=
  match m.work with
  | .handing _ _ w => .one w.tagGroupName (.write write w)
  | .cleanup _ => .all .cleanup
  | .process name =>
    if m.comms.simRunning && m.comms.tagGroupExists name then .one name (.poll poll) else .nothing
  | .pop | .flush _ _ | .push _ => .nothing

/-- What a step does to the groups. -/
def Machine.change (m : Machine V) : Label V → Change V
  | .call c => m.comms.callChange c
  | .push _ => .nothing
  | .work write poll => m.workChange write poll
  | .message name topic payload =>
    if m.comms.tagGroupExists name then .one name (.message topic payload) else .nothing

/-- The groups a step works on, each as the step finds it, with what happens to it. -/
def Machine.changed (m : Machine V) (l : Label V) : List (CStr × TagGroup V × GroupOp V) :=
  m.comms.changed (m.change l)

/-- The signals of a step. -/
def Machine.signals [Rtde.GodotVariant V] (m : Machine V) : Label V → List Signal
  | .call (.process ticks) => (m.comms.process ticks).1
  | _ => []

/-- Two states with the same groups, addresses and calls. -/
structure State.Same (s s' : State V) : Prop where
  tagGroups : s.tagGroups = s'.tagGroups
  next : s.next = s'.next
  calls : s.calls = s'.calls

section
variable [Rtde.GodotVariant V]

/-- A method makes its change. -/
theorem call_same (s : State V) (c : Call V) : (s.call c).2.Same (s.change (s.callChange c)) := by
  cases c with
  | registerTagGroup name pollingInterval protocol gateway path cpu =>
    simp only [State.call, State.callChange, State.registerTagGroup]
    split
    · exact ⟨rfl, rfl, rfl⟩
    · exact ⟨rfl, rfl, rfl⟩
  | registerTag name tagName ty =>
    simp only [State.call, State.callChange, State.registerTag]
    split
    · exact ⟨rfl, rfl, rfl⟩
    split
    · exact ⟨rfl, rfl, rfl⟩
    · exact ⟨rfl, rfl, rfl⟩
  | setSoftPlcProgram name source =>
    simp only [State.call, State.callChange, State.setSoftPlcProgram]
    split
    · exact ⟨rfl, rfl, rfl⟩
    · exact ⟨rfl, rfl, rfl⟩
  | setSoftPlcWatchEnabled name enabled =>
    simp only [State.call, State.callChange, State.setSoftPlcWatchEnabled]
    split
    · exact ⟨rfl, rfl, rfl⟩
    · exact ⟨rfl, rfl, rfl⟩
  | setEnableComms value => exact ⟨rfl, rfl, rfl⟩
  | setSimRunning value => exact ⟨rfl, rfl, rfl⟩
  | process ticks =>
    simp only [State.call, State.callChange, State.process]
    split
    · exact ⟨rfl, rfl, rfl⟩
    · exact ⟨rfl, rfl, rfl⟩
  | write w =>
    simp only [State.call, State.write]
    split
    · exact ⟨rfl, rfl, rfl⟩
    · exact ⟨rfl, rfl, rfl⟩
  | read name tagName ty =>
    simp only [State.call, State.callChange, State.read]
    split
    · exact ⟨rfl, rfl, rfl⟩
    · exact ⟨rfl, rfl, rfl⟩
  | clearTagGroups =>
    simp only [State.call, State.callChange, State.clearTagGroups]
    split
    · exact ⟨rfl, rfl, rfl⟩
    · exact ⟨rfl, rfl, rfl⟩

/-- A step of the work thread makes its change. -/
theorem workStep_same (m : Machine V) (write : WriteEnv) (poll : Env V) :
    (m.workStep write poll).comms.Same (m.comms.change (m.workChange write poll)) := by
  unfold Machine.workStep Machine.workChange
  cases m.work with
  | pop =>
    simp only
    split
    · exact ⟨rfl, rfl, rfl⟩
    · exact ⟨rfl, rfl, rfl⟩
  | flush name first =>
    simp only
    split
    · exact ⟨rfl, rfl, rfl⟩
    · exact ⟨rfl, rfl, rfl⟩
  | handing name first w => exact ⟨rfl, rfl, rfl⟩
  | cleanup name => exact ⟨rfl, rfl, rfl⟩
  | process name =>
    simp only [State.processTagGroup]
    split
    · split
      · exact ⟨rfl, rfl, rfl⟩
      · exact ⟨rfl, rfl, rfl⟩
    · exact ⟨rfl, rfl, rfl⟩
  | push name => exact ⟨rfl, rfl, rfl⟩

/-- A step makes its change. -/
theorem step_same (m : Machine V) (l : Label V) :
    (m.step l).comms.Same (m.comms.change (m.change l)) := by
  cases l with
  | call c => exact call_same m.comms c
  | push i =>
    simp only [Machine.step]
    split
    · exact ⟨rfl, rfl, rfl⟩
    · exact ⟨rfl, rfl, rfl⟩
  | work write poll => exact workStep_same m write poll
  | message name topic payload =>
    simp only [Machine.step, Machine.change, State.mqttMessageArrived]
    split
    · exact ⟨rfl, rfl, rfl⟩
    · exact ⟨rfl, rfl, rfl⟩

/-! ## Invariants of the groups -/

/-- Every group satisfies `P`. -/
def State.Every (P : TagGroup V → Prop) (s : State V) : Prop :=
  ∀ (name : CStr) (g : TagGroup V), s.tagGroups[name]? = some g → P g

section
variable {P : TagGroup V → Prop} {s : State V}

omit [Rtde.GodotVariant V] in
/-- What is said of every group is said of one that a look-up finds or makes. -/
theorem State.Every.group (h : s.Every P) (hempty : P {}) (name : CStr) : P (s.group name) := by
  unfold State.group
  cases hget : s.tagGroups[name]? with
  | none => exact hempty
  | some g => exact h name g hget

/-- What each group keeps, all keep. -/
theorem State.Every.changeAll (h : s.Every P) {op : GroupOp V}
    (hop : ∀ (name : CStr) (g : TagGroup V), s.tagGroups[name]? = some g → P g →
      P (g.after s.next op).group) : (s.changeAll op).Every P := by
  intro name g hget
  have hget : (s.tagGroups.map fun _ g => (g.after s.next op).group)[name]? = some g := hget
  rw [Std.ExtTreeMap.getElem?_map] at hget
  obtain ⟨g', hget', rfl⟩ := Option.map_eq_some_iff.mp hget
  exact hop name g' hget' (h name g' hget')

/-- What every group a change is made to keeps, every group has after it. -/
theorem State.Every.change (h : s.Every P) (hempty : P {}) {d : Change V}
    (hnew : ∀ (name : CStr) (g : TagGroup V), d = .register name g → P g)
    (hop : ∀ x ∈ s.changed d, P x.2.1 → P (x.2.1.after s.next x.2.2).group) :
    (s.change d).Every P := by
  have hinsert : ∀ (name : CStr) (g : TagGroup V), P g → ∀ (name' : CStr) (g' : TagGroup V),
      (s.tagGroups.insert name g)[name']? = some g' → P g' := by
    intro name g hg name' g' hget
    rcases (Sweep.getElem?_insert_iff _ _ _ _ _).mp hget with ⟨-, rfl⟩ | ⟨-, hget⟩
    · exact hg
    · exact h name' g' hget
  cases d with
  | nothing => exact h
  | one name op =>
    exact hinsert name _ (hop (name, s.group name, op) List.mem_cons_self (h.group hempty name))
  | all op =>
    refine h.changeAll fun name g hget hg => ?_
    refine hop (name, g, op) (List.mem_map.mpr ⟨(name, g), ?_, rfl⟩) hg
    exact Std.ExtTreeMap.mem_toList_iff_getElem?_eq_some.mpr hget
  | register name g => exact hinsert name g (hnew name g rfl)
  | clear =>
    intro name g hget
    cases Std.ExtTreeMap.getElem?_empty.symm.trans hget

end

omit [Rtde.GodotVariant V] in
/-- A group of a change is the one of its name. -/
theorem State.changed_group {s : State V} {d : Change V} {x : CStr × TagGroup V × GroupOp V}
    (hx : x ∈ s.changed d) : x.2.1 = s.group x.1 := by
  have hall : ∀ op : GroupOp V, x ∈ s.tagGroups.toList.map (fun y => (y.1, y.2, op)) →
      x.2.1 = s.group x.1 := by
    intro op hx
    obtain ⟨y, hy, rfl⟩ := List.mem_map.mp hx
    exact (State.group_of_some (Std.ExtTreeMap.mem_toList_iff_getElem?_eq_some.mp hy)).symm
  cases d with
  | nothing | register name g => cases hx
  | one name op => rw [List.mem_singleton.mp hx]
  | all op => exact hall op hx
  | clear => exact hall .cleanup hx

omit [Rtde.GodotVariant V] in
/-- What every group has, the groups of a change have. -/
theorem State.changed_every {P : TagGroup V → Prop} {s : State V} (h : s.Every P) (hempty : P {})
    (d : Change V) : ∀ x ∈ s.changed d, P x.2.1 := by
  intro x hx
  rw [State.changed_group hx]
  exact h.group hempty x.1

omit [Rtde.GodotVariant V] in
/-- What is said of every group is said of those a step changes. -/
theorem Machine.changed_every {P : TagGroup V → Prop} (m : Machine V) {l : Label V}
    (h : m.comms.Every P) (hempty : P {}) : ∀ x ∈ m.changed l, P x.2.1 :=
  State.changed_every h hempty (m.change l)

/-- A group of a change is what happened makes of it, or is cleared away. -/
theorem State.change_get {s : State V} {d : Change V} {x : CStr × TagGroup V × GroupOp V}
    (hx : x ∈ s.changed d) :
    (s.change d).tagGroups[x.1]? = some (x.2.1.after s.next x.2.2).group ∨
      x.2.2 = .cleanup ∧ (s.change d).tagGroups[x.1]? = none := by
  cases d with
  | nothing | register name g => cases hx
  | one name op =>
    rw [List.mem_singleton.mp hx]
    exact .inl Std.ExtTreeMap.getElem?_insert_self
  | all op =>
    obtain ⟨y, hy, rfl⟩ := List.mem_map.mp hx
    have hget := Std.ExtTreeMap.mem_toList_iff_getElem?_eq_some.mp hy
    refine .inl ?_
    show (s.tagGroups.map fun _ g => (g.after s.next op).group)[y.1]? = _
    rw [Std.ExtTreeMap.getElem?_map, hget]
    rfl
  | clear =>
    obtain ⟨y, -, rfl⟩ := List.mem_map.mp hx
    exact .inr ⟨rfl, Std.ExtTreeMap.getElem?_empty⟩

/-- A group a step changes is there with its change, or was cleared. -/
theorem Machine.step_get {m : Machine V} {l : Label V} {x : CStr × TagGroup V × GroupOp V}
    (hx : x ∈ m.changed l) :
    (m.step l).comms.tagGroups[x.1]? = some (x.2.1.after m.comms.next x.2.2).group ∨
      x.2.2 = .cleanup ∧ (m.step l).comms.tagGroups[x.1]? = none := by
  rw [(step_same m l).tagGroups]
  exact State.change_get hx

omit [Rtde.GodotVariant V] in
/-- A poll is the work thread's. -/
theorem Machine.changed_poll {m : Machine V} {l : Label V} {x : CStr × TagGroup V × GroupOp V}
    (hx : x ∈ m.changed l) {env : Env V} (hpoll : x.2.2 = .poll env) :
    ∃ write, l = .work write env := by
  have hone : ∀ {b : Prop} [Decidable b] {name op},
      x ∈ m.comms.changed (if b then .one name op else .nothing) → x.2.2 = op := by
    intro b _ name op hx
    split at hx
    · rw [List.mem_singleton.mp hx]
    · cases hx
  cases l with
  | call c =>
    cases c with
    | registerTagGroup name pollingInterval protocol gateway path cpu =>
      simp only [Machine.changed, Machine.change, State.callChange] at hx
      split at hx
      · cases hx
      · cases hx
    | registerTag name tagName ty =>
      simp only [Machine.changed, Machine.change, State.callChange] at hx
      split at hx
      · cases hx
      · cases (hone hx).symm.trans hpoll
    | setSoftPlcProgram name source | setSoftPlcWatchEnabled name enabled | read name tagName ty =>
      cases (hone hx).symm.trans hpoll
    | process ticks =>
      simp only [Machine.changed, Machine.change, State.callChange] at hx
      split at hx
      · obtain ⟨y, -, rfl⟩ := List.mem_map.mp hx
        cases hpoll
      · cases hx
    | clearTagGroups =>
      simp only [Machine.changed, Machine.change, State.callChange] at hx
      split at hx
      · cases hx
      · obtain ⟨y, -, rfl⟩ := List.mem_map.mp hx
        cases hpoll
    | setEnableComms value | setSimRunning value | write w => cases hx
  | push i => cases hx
  | work write poll =>
    simp only [Machine.changed, Machine.change, Machine.workChange] at hx
    split at hx
    · rw [List.mem_singleton.mp hx] at hpoll
      cases hpoll
    · obtain ⟨y, -, rfl⟩ := List.mem_map.mp hx
      cases hpoll
    · cases (hone hx).symm.trans hpoll
      exact ⟨write, rfl⟩
    · cases hx
    · cases hx
    · cases hx
  | message name topic payload => cases (hone hx).symm.trans hpoll

/-! ## Calls that are made -/

/-- A call is an old one or is made by what happens to a group. -/
theorem change_calls {s : State V} {d : Change V} {c : LibCall V} (h : c ∈ (s.change d).calls) :
    c ∈ s.calls ∨ ∃ x ∈ s.changed d, c ∈ (x.2.1.after s.next x.2.2).calls := by
  have hall : ∀ op, c ∈ (s.changeAll op).calls → c ∈ s.calls ∨
      ∃ x ∈ s.tagGroups.toList.map fun x => (x.1, x.2, op),
        c ∈ (x.2.1.after s.next x.2.2).calls := by
    intro op h
    rcases List.mem_append.mp h with hold | hnew
    · exact .inl hold
    · obtain ⟨x, hx, hc⟩ := List.mem_flatMap.mp hnew
      exact .inr ⟨_, List.mem_map_of_mem hx, hc⟩
  cases d with
  | nothing | register name g => exact .inl h
  | one name op =>
    rcases List.mem_append.mp h with hold | hnew
    · exact .inl hold
    · exact .inr ⟨_, List.mem_cons_self, hnew⟩
  | all op => exact hall op h
  | clear => exact hall .cleanup h

/-- A call is of this step or of one before. -/
theorem Machine.step_calls {m : Machine V} {l : Label V} {c : LibCall V}
    (h : c ∈ (m.step l).comms.calls) :
    c ∈ m.comms.calls ∨ ∃ x ∈ m.changed l, c ∈ (x.2.1.after m.comms.next x.2.2).calls := by
  rw [(step_same m l).calls] at h
  exact change_calls h

/-! ## Invariants of every run -/

omit [Rtde.GodotVariant V] in
/-- A group that a step puts in the map is as `register_tag_group` makes it. -/
theorem Machine.change_register {m : Machine V} {l : Label V} {name : CStr} {g : TagGroup V}
    (h : m.change l = .register name g) :
    ∃ pollingInterval protocol gateway path cpu,
      g = TagGroup.registered pollingInterval protocol gateway path cpu := by
  cases l with
  | call c =>
    cases c with
    | registerTagGroup name' pollingInterval protocol gateway path cpu =>
      simp only [Machine.change, State.callChange] at h
      split at h
      · cases h
      · cases h
        exact ⟨_, _, _, _, _, rfl⟩
    | registerTag name' tagName ty =>
      simp only [Machine.change, State.callChange] at h
      split at h
      · cases h
      split at h
      · cases h
      · cases h
    | setSoftPlcProgram name' source | setSoftPlcWatchEnabled name' enabled | process ticks
    | read name' tagName ty | clearTagGroups =>
      simp only [Machine.change, State.callChange] at h
      split at h
      · cases h
      · cases h
    | setEnableComms value | setSimRunning value | write w => cases h
  | push i => cases h
  | work write poll =>
    simp only [Machine.change, Machine.workChange] at h
    split at h
    · cases h
    · cases h
    · split at h
      · cases h
      · cases h
    · cases h
    · cases h
    · cases h
  | message name' topic payload =>
    simp only [Machine.change] at h
    split at h
    · cases h
    · cases h

/-- An invariant of the groups that new groups have, and that is kept by what a step does to them, is
kept by the step. -/
theorem Machine.every_step {P : TagGroup V → Prop} {m : Machine V} {l : Label V}
    (h : m.comms.Every P) (hempty : P {})
    (hnew : ∀ pollingInterval protocol gateway path cpu,
      P (TagGroup.registered pollingInterval protocol gateway path cpu))
    (hop : ∀ x ∈ m.changed l, P x.2.1 → P (x.2.1.after m.comms.next x.2.2).group) :
    (m.step l).comms.Every P := by
  have hchange : (m.comms.change (m.change l)).Every P := by
    refine h.change hempty ?_ hop
    intro name g hregister
    obtain ⟨pollingInterval, protocol, gateway, path, cpu, rfl⟩ := Machine.change_register hregister
    exact hnew pollingInterval protocol gateway path cpu
  intro name g hget
  rw [(step_same m l).tagGroups] at hget
  exact hchange name g hget

/-- An invariant that everything that can happen to a group keeps holds in every state. -/
theorem every_along {P : TagGroup V → Prop} (hempty : P {})
    (hnew : ∀ pollingInterval protocol gateway path cpu,
      P (TagGroup.registered pollingInterval protocol gateway path cpu))
    (hop : ∀ (g : TagGroup V) (next : Nat) (op : GroupOp V), P g → P (g.after next op).group)
    (ops : List (Label V)) :
    Along Machine.step (fun m => m.comms.Every P) ({} : Machine V) ops := by
  refine along_of_invariant Machine.step ?_ ?_ ops
  · intro m l h
    exact Machine.every_step h hempty hnew fun x _ => hop x.2.1 m.comms.next x.2.2
  · intro name g hget
    cases Std.ExtTreeMap.getElem?_empty.symm.trans hget

end

end OipComms.Backend
