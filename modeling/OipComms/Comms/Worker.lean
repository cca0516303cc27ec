import OipComms.Comms.Registry
import OipComms.Lib.Run

/-!
# The two threads

The main thread calls the methods of the class; the work thread goes round the loop of
`process_work`. A run is any interleaving of their steps.

A call is one step up to the name it pushes last, and that push is another, so the work thread may
go on between the two. The same holds of a poll that stops the simulation. In `process_work` each
pop, each turn of `flush_all_writes`, each write handed over, the clean-up and the poll are steps of
their own. `process` is one step, with the names it queues.
-/

namespace OipComms.Comms

open Run

universe u

variable {V : Type u}

/-- Where the work thread stands in `process_work`. `first` marks the `flush_all_writes` before the
clean-up. -/
inductive Work (V : Type u)
  | pop
  | flush (name : CStr) (first : Bool)
  | handing (name : CStr) (first : Bool) (w : WriteRequest V)
  | cleanup (name : CStr)
  | process (name : CStr)
  | push (name : CStr)

/-- The methods the main thread calls. -/
inductive Call (V : Type u)
  | registerTagGroup (name : CStr) (pollingInterval : Int) (protocol : Protocol)
  | registerTag (name tagName : CStr) (ty : TagType)
  | setEnableComms (value : Bool)
  | setSimRunning (value : Bool)
  | process (ticks : UInt64)
  | write (w : WriteRequest V)
  | clearTagGroups

/-- A step of either thread, with what the backend makes of it if it gets to one. -/
inductive Label (V : Type u)
  | call (c : Call V)
  | push
  | work (handed : Handed) (polled : Polled)

/-- The object with both threads; `pushing` is the name the main thread has yet to push. -/
structure Machine (V : Type u) where
  comms : State V := {}
  pushing : Option CStr := none
  work : Work V := .pop

/-- A call up to its push, and the name it then pushes. -/
def State.call (s : State V) : Call V → Option CStr × State V
  | .registerTagGroup name pollingInterval protocol =>
    (none, s.registerTagGroup name pollingInterval protocol)
  | .registerTag name tagName ty => (none, (s.registerTag name tagName ty).2)
  | .setEnableComms value => (none, { s with enableComms := value })
  | .setSimRunning value => s.setSimRunning value
  | .process ticks => (none, (s.process ticks).2)
  | .write w => s.write w
  | .clearTagGroups => (none, s.clearTagGroups)

/-- A step of `process_work`. The pop waits for a name. -/
def Machine.workStep (m : Machine V) (handed : Handed) (polled : Polled) : Machine V :=
  match m.work with
  | .pop =>
    match m.comms.tagGroupQueue with
    | [] => m
    | name :: rest =>
      { m with
        comms := { m.comms with tagGroupQueue := rest }
        work := .flush name (name = cleanupToken) }
  | .flush name first =>
    match m.comms.writeQueue with
    | [] => { m with work := if first then .cleanup name else .process name }
    | w :: rest =>
      { m with
        comms := { m.comms with writeQueue := rest }
        work := .handing name first w }
  | .handing name first w =>
    { m with
      comms := m.comms.processWrite w handed
      work := .flush name first }
  | .cleanup name =>
    { m with
      comms := m.comms.cleanupTagGroups
      work := .flush name false }
  | .process name =>
    { m with
      comms := (m.comms.processTagGroup name polled).2
      work := ((m.comms.processTagGroup name polled).1.map .push).getD .pop }
  | .push name => { m with comms := m.comms.queueTagGroup name, work := .pop }

/-- A step of either thread. The main thread makes no call before the last one has pushed. -/
def Machine.step (m : Machine V) : Label V → Machine V
  | .call c =>
    match m.pushing with
    | none => { m with comms := (m.comms.call c).2, pushing := (m.comms.call c).1 }
    | some _ => m
  | .push =>
    match m.pushing with
    | none => m
    | some name => { m with comms := m.comms.queueTagGroup name, pushing := none }
  | .work handed polled => m.workStep handed polled

/-- The write the work thread has taken from the queue and not yet handed over. -/
def Work.inHand : Work V → List (WriteRequest V)
  | .handing _ _ w => [w]
  | _ => []

/-- The work thread has taken a clean-up from the queue and not yet run it. -/
def Work.cleaning : Work V → Bool
  | .flush _ first => first
  | .handing _ first _ => first
  | .cleanup _ => true
  | _ => false

/-- A backend that takes every write and finds nothing to change in a poll. -/
def quiet : Label V :=
  .work ⟨true, true, false⟩
    { tag := fun _ tag => tag, initCount := 0, initCountEmitted := false, hasError := false
      needsSessionRecoveredSignal := false, creates := false, stops := false }

/-- A group with a tag in it, and a simulation that runs. -/
def started (name : CStr) : List (Label Bool) :=
  [.call (.registerTagGroup name 100 .s7), .call (.registerTag name "MB0".toList .uint8),
    .call (.setSimRunning true)]

/-! ## What is remembered of a run -/

/-- Where a name in the queue comes from: the `n`-th call of `set_sim_running(false)` to return,
made when `accepted` writes had been accepted, a frame, or a write. -/
inductive Origin
  | stop (n accepted : Nat)
  | frame
  | write
  deriving DecidableEq, Repr

/-- The history of a run: where the names in the queue and the one the work thread goes round with
come from, the stops that have returned and those a clean-up was run for, the tags registered with
the stops before them, the tags no stop, clear or registration of their group came after, the
writes accepted, how many had been when the simulation was last stopped, and those handed over. -/
structure History (V : Type u) where
  origins : List Origin := []
  current : Origin := .write
  stops : Nat := 0
  answered : List Nat := []
  registered : List (CStr × CStr × Nat) := []
  kept : List (CStr × CStr) := []
  accepted : List (WriteRequest V) := []
  stoppedAt : Nat := 0
  handed : List (WriteRequest V) := []

/-- A name is pushed by a stop or by a write. -/
def History.push (h : History V) (name : CStr) : History V :=
  if name = cleanupToken then
    { h with
      origins := h.origins ++ [.stop (h.stops + 1) h.accepted.length]
      stops := h.stops + 1
      kept := [] }
  else { h with origins := h.origins ++ [.write] }

/-- The first name of the queue is taken. -/
def History.pop (h : History V) : History V :=
  match h.origins with
  | [] => h
  | o :: rest => { h with origins := rest, current := o }

/-- The simulation is stopped. -/
def History.stop (h : History V) : History V := { h with stoppedAt := h.accepted.length }

/-- What a call adds to the history. -/
def History.call (h : History V) (s : State V) : Call V → History V
  | .registerTagGroup name _ _ => { h with kept := h.kept.filter fun x => x.1 ≠ name }
  | .registerTag name tagName ty =>
    if (s.registerTag name tagName ty).1 then
      { h with
        registered := (name, tagName, h.stops) :: h.registered
        kept := (name, tagName) :: h.kept }
    else h
  | .setEnableComms _ => h
  | .setSimRunning value => if value then h else h.stop
  | .process ticks => { h with origins := h.origins ++ (s.dueNames ticks).map fun _ => .frame }
  | .write w => if s.takes w then { h with accepted := h.accepted ++ [w] } else h
  | .clearTagGroups => if s.simRunning then h else { h with kept := [] }

/-- What a step of `process_work` adds to the history. -/
def History.workStep (h : History V) (m : Machine V) (polled : Polled) : History V :=
  match m.work with
  | .pop => h.pop
  | .flush _ _ => h
  | .handing _ _ w => { h with handed := h.handed ++ [w] }
  | .cleanup _ =>
    match h.current with
    | .stop n _ => { h with answered := n :: h.answered }
    | _ => h
  | .process name => if (m.comms.processTagGroup name polled).1.isSome then h.stop else h
  | .push name => h.push name

/-- What a step adds to the history. -/
def History.note (m : Machine V) (l : Label V) (h : History V) : History V :=
  match l with
  | .call c => if m.pushing.isSome then h else h.call m.comms c
  | .push => (m.pushing.map h.push).getD h
  | .work _ polled => h.workStep m polled

/-- The machine with the history of its run. -/
abbrev Watched (V : Type u) := Machine V × History V

/-- A step with its history. -/
def Watched.step : Watched V → Label V → Watched V := watch Machine.step History.note

/-- The start of every run. -/
def Watched.init : Watched V := ({}, {})

end OipComms.Comms
