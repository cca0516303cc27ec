import OipComms.Backend.Polled
import OipComms.Comms.Pipeline

/-!
# The registry and the backends

A run of whole groups is, as the registry knows the groups, a run of the registry (`run_known`): the
calls and the steps of the work thread are its own, with what the backends made of them for the
choices of the environment, and a message is no step of it. So what `Comms/` says of the registry's
runs is said of these. The registry has no reads and none of the calls that are for a soft PLC.
-/

namespace OipComms.Backend

open Comms (TagType)
open Run Sweep

variable {V : Type}

/-! ## What the registry knows of the machine -/

/-- What the threads share, as the registry knows it. -/
def State.known (s : State V) : Comms.State V where
  tagGroups := s.tagGroups.map fun _ g => g.known
  tagGroupOrder := s.tagGroupOrder
  writeQueue := s.writeQueue
  tagGroupQueue := s.tagGroupQueue
  startupTimer := s.startupTimer
  lastTicks := s.lastTicks
  enableComms := s.enableComms
  simRunning := s.simRunning

def Machine.known (m : Machine V) : Comms.Shared V where
  comms := m.comms.known
  pushing := m.pushing
  work := m.work

/-- The steps the registry has. -/
def Label.known : Label V → Bool
  | .call (.setSoftPlcProgram _ _) | .call (.setSoftPlcWatchEnabled _ _) | .call (.read _ _ _) => false
  | _ => true

section
variable {s : State V}

/-- A group is known if it is there. -/
theorem known_get (name : CStr) :
    s.known.tagGroups[name]? = (s.tagGroups[name]?).map TagGroup.known :=
  Std.ExtTreeMap.getElem?_map

/-- What is known of the group a look-up finds or makes. -/
theorem known_group (name : CStr) :
    (s.known.tagGroups[name]?).getD {} = (s.group name).known := by
  rw [known_get, State.group]
  cases s.tagGroups[name]? with
  | none => rfl
  | some g => rfl

theorem known_tagGroupExists (name : CStr) : s.known.tagGroupExists name = s.tagGroupExists name :=
  Std.ExtTreeMap.contains_map

theorem known_takes (w : Comms.WriteRequest V) : s.known.takes w = s.takes w := by
  have hexists : s.known.tagExists w.tagGroupName w.tagName = s.tagExists w.tagGroupName w.tagName := by
    rw [Comms.State.tagExists, known_get, State.tagExists]
    cases s.tagGroups[w.tagGroupName]? with
    | none => rfl
    | some g => exact known_has g w.tagName
  rw [Comms.State.takes, hexists]
  rfl

theorem known_write (w : Comms.WriteRequest V) :
    s.known.write w = ((s.write w).1, (s.write w).2.known) := by
  unfold Comms.State.write State.write
  rw [known_takes]
  split
  · rfl
  · rfl

/-- Nothing but the groups is changed, and they as the registry does it. -/
theorem known_withGroups {groups : Std.ExtTreeMap CStr (TagGroup V)} {groups' : Comms.Groups}
    (h : groups.map (fun _ g => g.known) = groups') :
    ({ s with tagGroups := groups } : State V).known = { s.known with tagGroups := groups' } := by
  rw [State.known, h]
  rfl

section
variable [Rtde.GodotVariant V]

/-- The groups of a change that is made to one of them. -/
theorem known_one (name : CStr) (op : GroupOp V) :
    (s.change (.one name op)).known =
      { s.known with tagGroups :=
          s.known.tagGroups.insert name ((s.group name).after s.next op).group.known } :=
  known_withGroups (s := { s with next := _, calls := _ }) (map_insert _ _ _ _)

/-- A change the registry does not see. -/
theorem known_unseen {name : CStr} {op : GroupOp V} {g : TagGroup V}
    (hget : s.tagGroups[name]? = some g) (hsame : (g.after s.next op).group.known = g.known) :
    (s.change (.one name op)).known = s.known := by
  have hsame' : ((s.group name).after s.next op).group.known = g.known := by
    rw [State.group_of_some hget]
    exact hsame
  exact known_withGroups (s := { s with next := _, calls := _ })
    (map_insert_same (fun _ g => g.known) hget hsame')

/-- The groups of a change that is made to all of them. -/
theorem known_changeAll {op : GroupOp V} {f : Comms.TagGroup → Comms.TagGroup}
    (h : ∀ (name : CStr) (g : TagGroup V), s.tagGroups[name]? = some g →
      (g.after s.next op).group.known = f g.known) :
    (s.changeAll op).known = { s.known with tagGroups := s.known.tagGroups.map fun _ g => f g } := by
  have hgroups : (s.tagGroups.map fun _ g => (g.after s.next op).group).map
      (fun _ g => g.known) = s.known.tagGroups.map fun _ g => f g := by
    refine Std.ExtTreeMap.ext_getElem? fun name => ?_
    rw [Std.ExtTreeMap.getElem?_map, Std.ExtTreeMap.getElem?_map, Std.ExtTreeMap.getElem?_map,
      known_get]
    cases hget : s.tagGroups[name]? with
    | none => rfl
    | some g => exact congrArg some (h name g hget)
  exact known_withGroups (s := { s with calls := _ }) hgroups

theorem known_cleanupTagGroups : s.cleanupTagGroups.known = s.known.cleanupTagGroups :=
  known_changeAll fun _ g _ => Visit.known_cleanup { group := g, next := s.next }

theorem known_clearTagGroups : s.clearTagGroups.known = s.known.clearTagGroups := by
  unfold State.clearTagGroups Comms.State.clearTagGroups
  show _ = if s.simRunning then _ else _
  split
  · rfl
  · exact known_withGroups (s := { s with next := _, calls := _, tagGroupOrder := [] }) rfl

theorem known_registerTagGroup (name : CStr) (pollingInterval : Int) (protocol : Comms.Protocol)
    (gateway path cpu : CStr) :
    (s.registerTagGroup name pollingInterval protocol gateway path cpu).known =
      s.known.registerTagGroup name pollingInterval protocol := by
  unfold State.registerTagGroup Comms.State.registerTagGroup
  split
  · rfl
  · simp only [known_tagGroupExists]
    refine known_withGroups (s := { s with tagGroupOrder := _ }) ((map_insert _ _ _ _).trans ?_)
    rw [known_registered]
    rfl

/-- A tag that is there stays as it is; another is registered in the group. -/
theorem State.known_registerTag (name tagName : CStr) (ty : TagType) :
    (s.registerTag name tagName ty).known = (s.known.registerTag name tagName ty).2 := by
  unfold State.registerTag Comms.State.registerTag
  split
  · rfl
  · rename_i hnames
    have htagName : tagName ≠ [] := fun hnil => hnames (.inr hnil)
    rw [known_get, State.tagGroupExists, Std.ExtTreeMap.contains_eq_isSome_getElem?]
    cases hget : s.tagGroups[name]? with
    | none => rfl
    | some g =>
      have hone := known_one (s := s) name (.registerTag tagName ty)
      rw [State.group_of_some hget] at hone
      simp only [Option.isSome_some, if_true, Option.map_some, known_has]
      by_cases hhas : g.has tagName = true
      · rw [if_pos hhas]
        refine known_unseen hget ?_
        show (if g.has tagName then _ else _ : Visit V).group.known = _
        rw [if_pos hhas]
      · have hregister := Visit.known_registerTag (v := { group := g, next := s.next }) ty htagName
          (Bool.eq_false_iff.mpr hhas)
        have hafter : g.after s.next (.registerTag tagName ty) =
            (Visit.registerTag { group := g, next := s.next } tagName ty).2 := by
          show (if g.has tagName then _ else _ : Visit V) = _
          rw [if_neg hhas]
        rw [if_neg hhas, hone, hafter, hregister]

/-- A frame emits what the registry's emits. -/
theorem known_process (h : s.Every TagGroup.Housed) (ticks : UInt64) :
    s.known.process ticks = ((s.process ticks).1, (s.process ticks).2.known) := by
  unfold Comms.State.process State.process
  show (if s.enableComms && s.simRunning then _ else _) = _
  split
  · have hsignals : (s.known.tagGroups.toList.flatMap fun x =>
          x.2.signals x.1 (s.known.delta ticks) s.known.startupTimer) =
        s.tagGroups.toList.flatMap fun x => x.2.signals x.1 (s.delta ticks) s.startupTimer := by
      rw [State.known, Std.ExtTreeMap.toList_map, List.flatMap_map]
      refine List.flatMap_congr fun x hx => ?_
      exact known_signals (h x.1 x.2 (Std.ExtTreeMap.mem_toList_iff_getElem?_eq_some.mp hx)) _ _ _
    have hnames : s.known.dueNames ticks = s.dueNames ticks := by
      rw [Comms.State.dueNames, State.dueNames]
      show (if s.enableComms && s.simRunning then _ else _) = _
      rw [State.known, Std.ExtTreeMap.toList_map, List.filter_map, List.map_map]
      rfl
    have hframes : (s.changeAll (.frame (s.delta ticks) s.startupTimer)).known =
        { s.known with
          tagGroups := s.known.tagGroups.map fun _ g => g.frame (s.delta ticks) s.startupTimer } :=
      known_changeAll fun name g hget => known_frame (h name g hget) _ _
    have hgroups := congrArg Comms.State.tagGroups hframes
    rw [hsignals, hnames]
    exact Prod.ext rfl (known_withGroups (s := { s with
      calls := _, tagGroupQueue := _, startupTimer := _, lastTicks := ticks }) hgroups).symm
  · rfl

/-- A write is handed to its group, which is made if it is not there. -/
theorem State.known_processWrite (env : WriteEnv) (w : Comms.WriteRequest V) :
    ∃ o, (s.processWrite env w).known = s.known.processWrite w o := by
  obtain ⟨o, ho⟩ := Visit.known_processWrite
    (v := { group := s.group w.tagGroupName, next := s.next }) env w
  refine ⟨o, ?_⟩
  rw [State.processWrite, known_one, Comms.State.processWrite, known_group]
  exact congrArg
    (fun g => { s.known with tagGroups := s.known.tagGroups.insert w.tagGroupName g }) ho

/-- A poll is made, and may stop the simulation, where the registry's is and does. -/
theorem State.known_processTagGroup (name : CStr) (env : Env V) :
    ∃ o, s.known.processTagGroup name o =
      ((s.processTagGroup name env).1, (s.processTagGroup name env).2.known) := by
  obtain ⟨o, hpoll, hstops⟩ := Visit.known_processTagGroup
    (v := { group := s.group name, next := s.next }) env rfl
  refine ⟨o, ?_⟩
  unfold Comms.State.processTagGroup State.processTagGroup
  show (if s.simRunning then _ else _) = _
  cases s.simRunning with
  | false => rfl
  | true =>
    rw [known_get, State.tagGroupExists, Std.ExtTreeMap.contains_eq_isSome_getElem?]
    cases hget : s.tagGroups[name]? with
    | none => rfl
    | some g =>
      rw [State.group_of_some hget] at hpoll hstops
      have hone := known_one (s := s) name (.poll env)
      rw [State.group_of_some hget] at hone
      have hgroup : (g.after s.next (.poll env)).group.known = g.known.poll o := hpoll
      have hstops : (g.after s.next (.poll env)).stops = g.known.pollStops o := hstops
      rw [hgroup] at hone
      simp only [Option.isSome_some, Bool.and_self, if_true, Option.map_some,
        State.group_of_some hget, hstops]
      split
      · have hstopped := congrArg (fun s : Comms.State V => { s with simRunning := false }) hone
        exact Prod.ext rfl hstopped.symm
      · exact Prod.ext rfl hone.symm

/-- A message changes nothing that is known. -/
theorem messageArrived_known (name topic : CStr) (payload : List UInt8) :
    (s.mqttMessageArrived name topic payload).known = s.known := by
  unfold State.mqttMessageArrived
  rw [State.tagGroupExists, Std.ExtTreeMap.contains_eq_isSome_getElem?]
  cases hget : s.tagGroups[name]? with
  | none => rfl
  | some g => exact known_unseen hget (known_mqttMessageArrived g topic payload)

end

end

/-! ## Steps and runs -/

section
variable [Rtde.GodotVariant V] {m : Machine V}

/-- Each method that is known is one of the worker's. -/
theorem call_known (h : m.comms.Every TagGroup.Housed) {c : Call V}
    (hknown : (Label.call c).known = true) :
    ∃ c', m.comms.known.call c' = ((m.comms.call c).1, (m.comms.call c).2.known) := by
  cases c with
  | registerTagGroup name pollingInterval protocol gateway path cpu =>
    exact ⟨.registerTagGroup name pollingInterval protocol, Prod.ext rfl
      (known_registerTagGroup name pollingInterval protocol gateway path cpu).symm⟩
  | registerTag name tagName ty =>
    exact ⟨.registerTag name tagName ty, Prod.ext rfl (State.known_registerTag name tagName ty).symm⟩
  | setEnableComms value => exact ⟨.setEnableComms value, rfl⟩
  | setSimRunning value => exact ⟨.setSimRunning value, rfl⟩
  | process ticks =>
    exact ⟨.process ticks, Prod.ext rfl (congrArg (fun x => x.2) (known_process h ticks))⟩
  | write w => exact ⟨.write w, known_write w⟩
  | clearTagGroups => exact ⟨.clearTagGroups, Prod.ext rfl known_clearTagGroups.symm⟩
  | setSoftPlcProgram name source | setSoftPlcWatchEnabled name enabled | read name tagName ty =>
    cases hknown

/-- Each step of the work thread is one of the worker's, with some answers. -/
theorem workStep_known (write : WriteEnv) (poll : Env V) :
    ∃ handed polled, m.known.step (.work handed polled) = (m.workStep write poll).known := by
  obtain ⟨comms, pushing, work⟩ := m
  unfold Comms.Shared.step Comms.Shared.worker Comms.Machine.workStep Machine.workStep
  cases work with
  | pop =>
    refine ⟨⟨false, false, false⟩, noPoll, ?_⟩
    have hqueue : comms.known.tagGroupQueue = comms.tagGroupQueue := rfl
    simp only [Machine.known, hqueue]
    cases comms.tagGroupQueue with
    | nil => rfl
    | cons name rest => rfl
  | flush name first =>
    refine ⟨⟨false, false, false⟩, noPoll, ?_⟩
    have hqueue : comms.known.writeQueue = comms.writeQueue := rfl
    simp only [Machine.known, hqueue]
    cases comms.writeQueue with
    | nil => rfl
    | cons w rest => rfl
  | handing name first w =>
    obtain ⟨o, ho⟩ := State.known_processWrite (s := comms) write w
    refine ⟨o, noPoll, ?_⟩
    simp only [Machine.known, ho]
  | cleanup name =>
    refine ⟨⟨false, false, false⟩, noPoll, ?_⟩
    simp only [Machine.known, known_cleanupTagGroups]
  | process name =>
    obtain ⟨o, ho⟩ := State.known_processTagGroup (s := comms) name poll
    refine ⟨⟨false, false, false⟩, o, ?_⟩
    simp only [Machine.known, ho]
  | push name => exact ⟨⟨false, false, false⟩, noPoll, rfl⟩

/-- A step of whole groups is a step of the registry, or none for a message. -/
theorem step_known (h : m.comms.Every TagGroup.Housed) {l : Label V} (hknown : l.known = true) :
    ∃ turns, run Comms.Shared.step m.known turns = (m.step l).known := by
  cases l with
  | call c =>
    obtain ⟨c', hc'⟩ := call_known h hknown
    refine ⟨[.call c'], ?_⟩
    show Comms.Shared.step m.known (.call c') = _
    rw [Comms.Shared.step]
    show ({ comms := (m.comms.known.call c').2
            pushing := m.pushing ++ (m.comms.known.call c').1.toList, work := m.work } :
      Comms.Shared V) = _
    rw [hc']
    rfl
  | push i =>
    refine ⟨[.push i], ?_⟩
    have hpushing : m.known.pushing[i]? = m.pushing[i]? := rfl
    simp only [run_cons, run_nil, Comms.Shared.step, Machine.step, hpushing]
    cases m.pushing[i]? with
    | none => rfl
    | some name => rfl
  | work write poll =>
    obtain ⟨handed, polled, hstep⟩ := workStep_known (m := m) write poll
    exact ⟨[.work handed polled], hstep⟩
  | message name topic payload =>
    refine ⟨[], ?_⟩
    show m.known = { m.known with comms := (m.comms.mqttMessageArrived name topic payload).known }
    rw [messageArrived_known]
    rfl

/-- A run of whole groups is a run of the registry. -/
theorem run_known {ops : List (Label V)} (hknown : ∀ l ∈ ops, l.known = true) :
    ∃ turns, run Comms.Shared.step {} turns = (run Machine.step {} ops).known := by
  refine exists_run Machine.step Comms.Shared.step Machine.known
    (J := fun m : Machine V => m.comms.Every TagGroup.Housed) ?_ ?_ (housed_along [])
  · intro m l h
    exact Machine.every_step h housed_empty housed_registered fun x _ hx =>
      (stays_apply (v := { group := x.2.1, next := m.comms.next }) hx x.2.2).1
  · intro m h l hl
    exact step_known h (hknown l hl)

/-- What every run of the registry ends in, every run of whole groups ends in. -/
theorem known_of_every {P : Comms.Shared V → Prop}
    (hP : ∀ turns, P (run Comms.Shared.step {} turns)) {ops : List (Label V)}
    (hknown : ∀ l ∈ ops, l.known = true) : P (run Machine.step {} ops).known := by
  obtain ⟨turns, hturns⟩ := run_known hknown
  rw [← hturns]
  exact hP turns

/-- So the work thread is awake to the writes that wait, or will be once what the calls under way
push is there. -/
theorem awake_of_known {ops : List (Label V)} (hknown : ∀ l ∈ ops, l.known = true) :
    (run Machine.step {} ops).known.Awake :=
  known_of_every (fun turns => run_of_invariant _ Comms.awake_step
    (fun _ hqueue => absurd rfl hqueue) turns) hknown

end

end OipComms.Backend
