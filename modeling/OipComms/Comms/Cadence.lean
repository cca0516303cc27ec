import OipComms.Comms.Grace

/-!
# When a group is polled

Each group has a time of its own. A running frame adds to it what has passed since the last running
frame, and queues the group when the polling interval is reached; then it starts at zero again. A
group that is registered starts with its whole interval, and one that a look-up creates has none.

All of it comes to a schedule: a running frame polls a group that no frame has polled since it was
registered, and any other as soon as its interval has passed since the frame that polled it last,
pauses included (`polls_on_time`). Over any stretch there is then at most one poll an interval, and
one more (`poll_rate`). Both are about exact times: those of the source are rounded, and where a time
comes closer to the interval than their error, a poll may be a frame early or late.
-/

namespace OipComms.Comms

open Run

universe u

variable {V : Type u}

/-- The frames that have polled a group since it was registered. -/
structure Polls where
  first : UInt64
  last : UInt64
  count : Nat

/-- What is known of the polls of each group. -/
abbrev Schedule := CStr → Option Polls

/-- A frame polls a group. -/
def pollsAt (ticks : UInt64) : Option Polls → Polls
  | none => { first := ticks, last := ticks, count := 1 }
  | some polls => { polls with last := ticks, count := polls.count + 1 }

/-- What a step does to the schedule. -/
def Schedule.note (m : Shared V) (l : Turn V) (polled : Schedule) : Schedule :=
  match l with
  | .call (.registerTagGroup name _ _) => fun other =>
    if name ≠ [] ∧ other = name then none else polled other
  | .call .clearTagGroups => fun name => if m.comms.simRunning then polled name else none
  | .call (.process ticks) => fun name =>
    if .tagGroupPolled name ∈ (m.comms.process ticks).1 then some (pollsAt ticks (polled name))
    else polled name
  | _ => polled

/-- The machine with its schedule. -/
abbrev Scheduled (V : Type u) := Shared V × Schedule

def Scheduled.step : Scheduled V → Turn V → Scheduled V := watch Shared.step Schedule.note

/-- The start of every run. -/
def Scheduled.init : Scheduled V := ({}, fun _ => none)

/-- If the step is a running frame, the groups it polls are those whose interval has passed since the
frame that polled them last, and those that no frame has polled. -/
def OnTime (x : Scheduled V) : Turn V → Prop
  | .call (.process ticks) => x.1.comms.running = true → ∀ (name : CStr) (g : TagGroup),
    x.1.comms.tagGroups[name]? = some g →
      (.tagGroupPolled name ∈ (x.1.comms.process ticks).1 ↔
        ∀ polls, x.2 name = some polls → 1000 * g.pollingInterval ≤ elapsed polls.last ticks)
  | _ => True

/-- From the first poll of a group to the last no more polls fit in than it has intervals, but for
the first. -/
def Sparse (x : Scheduled V) : Prop := ∀ (name : CStr) (g : TagGroup) (polls : Polls),
  x.1.comms.tagGroups[name]? = some g → x.2 name = some polls →
    1000 * g.pollingInterval * (polls.count - 1 : Nat) ≤ elapsed polls.first polls.last

/-! ## The time of a group -/

/-- What of a group says when it is polled. -/
def TagGroup.pace (g : TagGroup) : Int × Int := (g.pollingInterval, g.time)

/-- A write leaves the pace of a group. -/
@[simp] theorem pace_handed (g : TagGroup) (tagName : CStr) (o : Handed) :
    (g.handed tagName o).pace = g.pace := by
  unfold TagGroup.handed
  split
  · split
    · simp only
      split <;> rfl
    · rfl
  all_goals rfl

@[simp] theorem pace_poll (g : TagGroup) (o : Polled) : (g.poll o).pace = g.pace := by
  unfold TagGroup.poll
  split <;> rfl

@[simp] theorem pace_cleanup (g : TagGroup) : g.cleanup.pace = g.pace := rfl

@[simp] theorem pace_register (g : TagGroup) (tagName : CStr) (ty : TagType) :
    (g.register tagName ty).2.pace = g.pace := by
  unfold TagGroup.register
  split
  · rfl
  · split <;> rfl

/-- A step that leaves the times: the groups stay, and one that comes is one that a look-up
creates. -/
structure Steady (s s' : State V) : Prop where
  ticks : s'.lastTicks = s.lastTicks
  stays : ∀ name : CStr, s'.tagGroups[name]? = none → s.tagGroups[name]? = none
  pace : ∀ (name : CStr) (g' : TagGroup), s'.tagGroups[name]? = some g' →
    g'.pace = ((s.tagGroups[name]?).getD {}).pace

namespace Steady

variable {s s' : State V}

/-- What leaves the groups leaves their pace. -/
theorem same (hticks : s'.lastTicks = s.lastTicks) (hgroups : s'.tagGroups = s.tagGroups) :
    Steady s s' := by
  refine ⟨hticks, fun name => ?_, fun name g' hg' => ?_⟩
  · rw [hgroups]
    exact id
  · rw [← hgroups, hg']
    rfl

/-- What stores one group at its pace is steady. -/
theorem insert {name : CStr} {g' : TagGroup} (hticks : s'.lastTicks = s.lastTicks)
    (hgroups : s'.tagGroups = s.tagGroups.insert name g')
    (hpace : g'.pace = ((s.tagGroups[name]?).getD {}).pace) : Steady s s' := by
  refine ⟨hticks, fun other hother => ?_, fun other g'' hg'' => ?_⟩
  · rw [hgroups, Std.ExtTreeMap.getElem?_insert] at hother
    split at hother
    · cases hother
    · exact hother
  · rw [hgroups, Std.ExtTreeMap.getElem?_insert] at hg''
    split at hg''
    · rename_i heq
      obtain rfl := Std.compare_eq_iff_eq.mp heq
      obtain rfl := Option.some.inj hg''
      exact hpace
    · rw [hg'']
      rfl

/-- What changes every group at its pace is steady. -/
theorem map {f : CStr → TagGroup → TagGroup} (hticks : s'.lastTicks = s.lastTicks)
    (hgroups : s'.tagGroups = s.tagGroups.map f) (hpace : ∀ name g, (f name g).pace = g.pace) :
    Steady s s' := by
  refine ⟨hticks, fun name hname => ?_, fun name g' hg' => ?_⟩
  · rw [hgroups, Std.ExtTreeMap.getElem?_map] at hname
    exact Option.map_eq_none_iff.mp hname
  · rw [hgroups, Std.ExtTreeMap.getElem?_map] at hg'
    obtain ⟨g, hg, rfl⟩ := Option.map_eq_some_iff.mp hg'
    rw [hg]
    exact hpace name g

end Steady

/-- A tag that is registered is steady. -/
theorem steady_registerTag (s : State V) (name tagName : CStr) (ty : TagType) :
    Steady s (s.registerTag name tagName ty).2 := by
  unfold State.registerTag
  split
  · exact .same rfl rfl
  · cases hg : s.tagGroups[name]? with
    | none => exact .same rfl rfl
    | some g =>
      simp only
      split
      · exact .same rfl rfl
      · refine .insert rfl rfl ?_
        rw [hg]
        exact pace_register g tagName ty

theorem steady_processTagGroup (s : State V) (name : CStr) (o : Polled) :
    Steady s (s.processTagGroup name o).2 := by
  unfold State.processTagGroup
  split
  · cases hg : s.tagGroups[name]? with
    | none => exact .same rfl rfl
    | some g =>
      have hpace : (g.poll o).pace = ((s.tagGroups[name]?).getD {}).pace := by
        rw [hg]
        exact pace_poll g o
      simp only
      split
      · exact .insert rfl rfl hpace
      · exact .insert rfl rfl hpace
  · exact .same rfl rfl

theorem steady_workStep (m : Machine V) (handed : Handed) (polled : Polled) :
    Steady m.comms (m.workStep handed polled).comms := by
  unfold Machine.workStep
  cases m.work with
  | pop =>
    simp only
    split <;> exact .same rfl rfl
  | flush name first =>
    simp only
    split <;> exact .same rfl rfl
  | handing name first w => exact .insert rfl rfl (pace_handed _ w.tagName handed)
  | cleanup name => exact .map rfl rfl fun _ g => pace_cleanup g
  | process name => exact steady_processTagGroup m.comms name polled
  | push name => exact .same rfl rfl

/-! ## The schedule -/

/-- A group's time is what has passed since the frame that polled it last; before the first poll it
is its interval or more. -/
def TagGroup.Paced (g : TagGroup) (lastTicks : UInt64) : Option Polls → Prop
  | none => 1000 * g.pollingInterval ≤ g.time
  | some polls => g.time = elapsed polls.last lastTicks ∧ 1 ≤ polls.count ∧
    1000 * g.pollingInterval * (polls.count - 1 : Nat) ≤ elapsed polls.first polls.last

/-- The schedule knows the groups that are there. -/
def Paces (s : State V) (polled : Schedule) : Prop := ∀ name : CStr,
  match s.tagGroups[name]? with
  | none => polled name = none
  | some g => g.Paced s.lastTicks (polled name)

/-- A group that is there is at its pace. -/
theorem Paces.some {s : State V} {polled : Schedule} (h : Paces s polled) {name : CStr}
    {g : TagGroup} (hg : s.tagGroups[name]? = some g) : g.Paced s.lastTicks (polled name) := by
  have hname := h name
  rw [hg] at hname
  exact hname

/-- A group that is not there was not polled. -/
theorem Paces.none {s : State V} {polled : Schedule} (h : Paces s polled) {name : CStr}
    (hg : s.tagGroups[name]? = none) : polled name = none := by
  have hname := h name
  rw [hg] at hname
  exact hname

/-- The schedule is right if it is so for the groups that are there and those that are not. -/
theorem paces_of {s : State V} {polled : Schedule}
    (hnone : ∀ name : CStr, s.tagGroups[name]? = none → polled name = none)
    (hsome : ∀ (name : CStr) (g : TagGroup), s.tagGroups[name]? = some g →
      g.Paced s.lastTicks (polled name)) :
    Paces s polled := by
  intro name
  cases hg : s.tagGroups[name]? with
  | none => exact hnone name hg
  | some g => exact hsome name g hg

/-- A group at the pace of another is paced as that one is. -/
theorem paced_congr {g g' : TagGroup} (hpace : g'.pace = g.pace) {lastTicks : UInt64}
    {polls : Option Polls} (h : g.Paced lastTicks polls) : g'.Paced lastTicks polls := by
  obtain ⟨hinterval, htime⟩ := Prod.mk.inj hpace
  cases polls with
  | none =>
    unfold TagGroup.Paced at h ⊢
    rw [hinterval, htime]
    exact h
  | some polls =>
    unfold TagGroup.Paced at h ⊢
    rw [hinterval, htime]
    exact h

/-- What is steady keeps the schedule. -/
theorem Paces.steady {s s' : State V} {polled : Schedule} (h : Paces s polled)
    (hsteady : Steady s s') : Paces s' polled := by
  refine paces_of (fun name hg' => h.none (hsteady.stays name hg')) fun name g' hg' => ?_
  rw [hsteady.ticks]
  refine paced_congr (hsteady.pace name g' hg') ?_
  cases hg : s.tagGroups[name]? with
  | none =>
    rw [h.none hg]
    exact Int.le_refl 0
  | some g => exact h.some hg

/-! ## Frames -/

/-- No time passes from a tick to itself. -/
theorem elapsed_self (ticks : UInt64) : elapsed ticks ticks = 0 := by
  rw [elapsed]
  omega

/-- Times that follow each other add up. -/
theorem elapsed_add (since ticks ticks' : UInt64) :
    elapsed since ticks + elapsed ticks ticks' = elapsed since ticks' := by
  simp only [elapsed]
  omega

/-- A frame whose tick does not go back adds the time that has passed. -/
theorem delta_eq_elapsed {s : State V} {ticks : UInt64} (h : s.lastTicks ≤ ticks) :
    s.delta ticks = elapsed s.lastTicks ticks ∧ 0 ≤ elapsed s.lastTicks ticks := by
  have hle := UInt64.le_iff_toNat_le.mp h
  rw [State.delta, elapsed, UInt64.toNat_sub_of_le _ _ h]
  omega

/-- A group is announced as polled when it is due, and under its own name. -/
theorem polled_of_signals (g : TagGroup) (name other : CStr) (delta startupTimer : Int) :
    .tagGroupPolled name ∈ g.signals other delta startupTimer ↔
      other = name ∧ g.due delta = true := by
  simp only [TagGroup.signals, List.mem_append]
  constructor
  · rintro ((hpolled | hinit) | hrecovered)
    · split at hpolled
      · rename_i hdue
        exact ⟨(Signal.tagGroupPolled.inj (List.mem_singleton.mp hpolled)).symm, hdue⟩
      · cases hpolled
    · split at hinit
      · cases List.mem_singleton.mp hinit
      · cases hinit
    · split at hrecovered
      · cases List.mem_singleton.mp hrecovered
      · cases hrecovered
  · rintro ⟨rfl, hdue⟩
    rw [if_pos hdue]
    exact .inl (.inl (List.mem_singleton.mpr rfl))

/-- What a running frame signals, and what it makes of the groups. -/
theorem process_running {s : State V} (h : s.running = true) (ticks : UInt64) :
    (s.process ticks).1 = s.tagGroups.toList.flatMap (fun x =>
        x.2.signals x.1 (s.delta ticks) s.startupTimer) ∧
      (s.process ticks).2.tagGroups =
        s.tagGroups.map (fun _ g => g.frame (s.delta ticks) s.startupTimer) ∧
      (s.process ticks).2.lastTicks = ticks := by
  have hboth : (s.enableComms && s.simRunning) = true := h
  unfold State.process
  rw [if_pos hboth]
  exact ⟨rfl, rfl, rfl⟩

/-- A running frame polls the groups that are due. -/
theorem polled_iff {s : State V} (hrunning : s.running = true) (name : CStr) (ticks : UInt64) :
    .tagGroupPolled name ∈ (s.process ticks).1 ↔
      ∃ g, s.tagGroups[name]? = some g ∧ g.due (s.delta ticks) = true := by
  rw [(process_running hrunning ticks).1]
  simp only [List.mem_flatMap, polled_of_signals]
  constructor
  · rintro ⟨entry, hmem, rfl, hdue⟩
    exact ⟨entry.2, Std.ExtTreeMap.mem_toList_iff_getElem?_eq_some.mp hmem, hdue⟩
  · rintro ⟨g, hg, hdue⟩
    exact ⟨(name, g), Std.ExtTreeMap.mem_toList_iff_getElem?_eq_some.mpr hg, rfl, hdue⟩

/-- A group is due when its interval has passed since the frame that polled it last. -/
theorem Paces.due_iff {s : State V} {polled : Schedule} (h : Paces s polled) {name : CStr}
    {g : TagGroup} (hg : s.tagGroups[name]? = .some g) {ticks : UInt64} (hticks : s.lastTicks ≤ ticks) :
    g.due (s.delta ticks) = true ↔
      ∀ polls, polled name = .some polls → 1000 * g.pollingInterval ≤ elapsed polls.last ticks := by
  obtain ⟨hdelta, hnonneg⟩ := delta_eq_elapsed hticks
  have hpaced := h.some hg
  rw [TagGroup.due, hdelta, decide_eq_true_eq]
  cases hpolls : polled name with
  | none =>
    rw [hpolls] at hpaced
    have hwhole : 1000 * g.pollingInterval ≤ g.time := hpaced
    exact iff_of_true (by omega) fun polls hsome => (Option.some_ne_none polls hsome.symm).elim
  | some polls =>
    rw [hpolls] at hpaced
    rw [hpaced.1, elapsed_add]
    constructor
    · rintro hdue polls' hsome
      exact Option.some.inj hsome ▸ hdue
    · exact fun hdue => hdue polls rfl

/-- A poll is the first, or comes an interval after the last. -/
theorem pollsAt_paced {g g' : TagGroup} {lastTicks ticks : UInt64} {polls : Option Polls}
    (h : g.Paced lastTicks polls)
    (hdue : ∀ polls', polls = some polls' → 1000 * g.pollingInterval ≤ elapsed polls'.last ticks)
    (hpace : g'.pace = (g.pollingInterval, 0)) : g'.Paced ticks (some (pollsAt ticks polls)) := by
  obtain ⟨hinterval, htime⟩ := Prod.mk.inj hpace
  unfold TagGroup.Paced
  simp only [hinterval, htime]
  cases polls with
  | none => exact ⟨(elapsed_self ticks).symm, Nat.le_refl 1, by simp [pollsAt, elapsed_self]⟩
  | some polls =>
    refine ⟨(elapsed_self ticks).symm, Nat.le_add_left 1 _, ?_⟩
    obtain ⟨-, hone, hsparse⟩ := h
    have hlast := hdue polls rfl
    have hsum := elapsed_add polls.first polls.last ticks
    obtain ⟨count, hcount⟩ := Nat.exists_eq_add_of_le' hone
    simp only [pollsAt, hcount, Nat.add_sub_cancel] at hsparse ⊢
    calc 1000 * g.pollingInterval * ((count + 1 : Nat) : Int)
        = 1000 * g.pollingInterval * (count : Nat) + 1000 * g.pollingInterval := by
          rw [Nat.cast_add, Nat.cast_one, mul_add, mul_one]
      _ ≤ elapsed polls.first polls.last + elapsed polls.last ticks := add_le_add hsparse hlast
      _ = elapsed polls.first ticks := hsum

/-- A frame keeps the schedule. -/
theorem paces_process {m : Shared V} {polled : Schedule} (h : Paces m.comms polled) {ticks : UInt64}
    (hticks : m.comms.lastTicks ≤ ticks) :
    Paces (m.comms.process ticks).2 (polled.note m (.call (.process ticks))) := by
  have hnote : polled.note m (.call (.process ticks)) = fun name =>
      if .tagGroupPolled name ∈ (m.comms.process ticks).1 then some (pollsAt ticks (polled name))
      else polled name := rfl
  rw [hnote]
  obtain ⟨hdelta, hnonneg⟩ := delta_eq_elapsed hticks
  cases hrunning : m.comms.running with
  | false =>
    have hidle : m.comms.process ticks = ([], { m.comms with startupTimer := 0 }) := by
      have hnot : ¬ (m.comms.enableComms && m.comms.simRunning) = true :=
        Bool.not_eq_true _ |>.mpr hrunning
      unfold State.process
      rw [if_neg hnot]
    rw [hidle]
    simp only [List.not_mem_nil, if_false]
    exact h.steady (.same rfl rfl)
  | true =>
    obtain ⟨-, hgroups, hlast⟩ := process_running hrunning ticks
    refine paces_of (fun name hnone => ?_) fun name g' hg' => ?_
    · rw [hgroups, Std.ExtTreeMap.getElem?_map] at hnone
      have hg := Option.map_eq_none_iff.mp hnone
      have hnot : .tagGroupPolled name ∉ (m.comms.process ticks).1 := fun hpolled => by
        obtain ⟨g, hsome, -⟩ := (polled_iff hrunning name ticks).mp hpolled
        rw [hg] at hsome
        cases hsome
      rw [if_neg hnot]
      exact h.none hg
    · rw [hgroups, Std.ExtTreeMap.getElem?_map] at hg'
      obtain ⟨g, hg, rfl⟩ := Option.map_eq_some_iff.mp hg'
      have hpaced := h.some hg
      rw [hlast]
      by_cases hdue : g.due (m.comms.delta ticks) = true
      · rw [if_pos ((polled_iff hrunning name ticks).mpr ⟨g, hg, hdue⟩)]
        refine pollsAt_paced hpaced ((h.due_iff hg hticks).mp hdue) ?_
        simp only [TagGroup.pace, TagGroup.frame, if_pos hdue]
      · have hnot : .tagGroupPolled name ∉ (m.comms.process ticks).1 := fun hpolled => by
          obtain ⟨g', hsome, hdue'⟩ := (polled_iff hrunning name ticks).mp hpolled
          rw [hg] at hsome
          exact hdue (Option.some.inj hsome ▸ hdue')
        rw [if_neg hnot]
        have hpace : (g.frame (m.comms.delta ticks) m.comms.startupTimer).pace =
            (g.pollingInterval, g.time + elapsed m.comms.lastTicks ticks) := by
          show (g.pollingInterval, if _ then _ else _) = _
          rw [if_neg hdue, hdelta]
        obtain ⟨hinterval, htime⟩ := Prod.mk.inj hpace
        cases hpolls : polled name with
        | none =>
          rw [hpolls] at hpaced
          have hwhole : 1000 * g.pollingInterval ≤ g.time := hpaced
          unfold TagGroup.Paced
          simp only [hinterval, htime]
          omega
        | some polls =>
          rw [hpolls] at hpaced
          unfold TagGroup.Paced at hpaced ⊢
          simp only [hinterval, htime]
          rw [hpaced.1, elapsed_add]
          exact ⟨rfl, hpaced.2⟩

/-! ## Registrations -/

/-- A group that is registered starts its schedule anew. -/
theorem paces_registerTagGroup {m : Shared V} {polled : Schedule} (h : Paces m.comms polled)
    (name : CStr) (pollingInterval : Int) (protocol : Protocol) :
    Paces (m.comms.registerTagGroup name pollingInterval protocol)
      (polled.note m (.call (.registerTagGroup name pollingInterval protocol))) := by
  have hnote : polled.note m (.call (.registerTagGroup name pollingInterval protocol)) =
      fun other => if name ≠ [] ∧ other = name then none else polled other := rfl
  rw [hnote]
  unfold State.registerTagGroup
  by_cases hempty : name = []
  · rw [if_pos hempty]
    simp only [ne_eq, not_true_eq_false, hempty, false_and, if_false]
    exact h
  rw [if_neg hempty]
  have hnew : ∀ other, other = name →
      (if name ≠ [] ∧ other = name then none else polled other) = none :=
    fun other hother => if_pos ⟨hempty, hother⟩
  have hold : ∀ other, other ≠ name →
      (if name ≠ [] ∧ other = name then none else polled other) = polled other :=
    fun other hother => if_neg fun hboth => hother hboth.2
  refine paces_of (fun other hnone => ?_) fun other g hg => ?_
  · by_cases hother : other = name
    · exact hnew other hother
    · rw [Std.ExtTreeMap.getElem?_insert,
        if_neg fun heq => hother (Std.compare_eq_iff_eq.mp heq).symm] at hnone
      rw [hold other hother]
      exact h.none hnone
  · by_cases hother : other = name
    · rw [Std.ExtTreeMap.getElem?_insert, if_pos (Std.compare_eq_iff_eq.mpr hother.symm)] at hg
      obtain rfl := Option.some.inj hg
      rw [hnew other hother]
      exact Int.le_refl (1000 * pollingInterval)
    · rw [Std.ExtTreeMap.getElem?_insert,
        if_neg fun heq => hother (Std.compare_eq_iff_eq.mp heq).symm] at hg
      rw [hold other hother]
      exact h.some hg

/-- A clear of the groups ends their schedules. -/
theorem paces_clearTagGroups {m : Shared V} {polled : Schedule} (h : Paces m.comms polled) :
    Paces m.comms.clearTagGroups (polled.note m (.call .clearTagGroups)) := by
  have hnote : polled.note m (.call .clearTagGroups) =
      fun name => if m.comms.simRunning then polled name else none := rfl
  rw [hnote]
  unfold State.clearTagGroups
  cases m.comms.simRunning with
  | true => exact h
  | false =>
    refine paces_of (fun _ _ => rfl) fun name g hg => ?_
    simp only [Bool.false_eq_true, if_false, Std.ExtTreeMap.getElem?_empty] at hg
    cases hg

/-! ## Runs -/

/-- Every step keeps the schedule. -/
theorem paces_step (x : Scheduled V) (l : Turn V) (h : Paces x.1.comms x.2)
    (hticks : ∀ ticks, l.ticks = some ticks → x.1.comms.lastTicks ≤ ticks) :
    Paces (Scheduled.step x l).1.comms (Scheduled.step x l).2 := by
  obtain ⟨m, polled⟩ := x
  show Paces (m.step l).comms (polled.note m l)
  have hpaces : Paces m.comms polled := h
  cases l with
  | push i =>
    refine hpaces.steady ?_
    unfold Shared.step
    simp only
    split <;> exact .same rfl rfl
  | work handed answer => exact hpaces.steady (steady_workStep m.worker handed answer)
  | call c =>
    cases c with
    | registerTagGroup name pollingInterval protocol =>
      exact paces_registerTagGroup hpaces name pollingInterval protocol
    | registerTag name tagName ty => exact hpaces.steady (steady_registerTag _ name tagName ty)
    | setEnableComms value => exact hpaces.steady (.same rfl rfl)
    | setSimRunning value => exact hpaces.steady (.same rfl rfl)
    | process ticks => exact paces_process hpaces (hticks ticks rfl)
    | write w =>
      refine hpaces.steady ?_
      show Steady m.comms (m.comms.write w).2
      unfold State.write
      split <;> exact .same rfl rfl
    | clearTagGroups => exact paces_clearTagGroups hpaces

/-- What the schedule says of a frame. -/
theorem onTime_of_paces {x : Scheduled V} {l : Turn V} (h : Paces x.1.comms x.2)
    (hticks : ∀ ticks, l.ticks = some ticks → x.1.comms.lastTicks ≤ ticks) : OnTime x l := by
  cases l with
  | push i => trivial
  | work handed answer => trivial
  | call c =>
    cases c with
    | process ticks =>
      intro hrunning name g hg
      rw [polled_iff hrunning name ticks]
      have hdue := h.due_iff hg (hticks ticks rfl)
      constructor
      · rintro ⟨g', hg', hpolled⟩
        rw [hg] at hg'
        exact hdue.mp (Option.some.inj hg' ▸ hpolled)
      · exact fun hpassed => ⟨g, hg, hdue.mpr hpassed⟩
    | registerTagGroup _ _ _ | registerTag _ _ _ | setEnableComms _ | setSimRunning _ | write _
    | clearTagGroups => trivial

/-- At first no group was polled. -/
theorem paces_init :
    Paces (Scheduled.init : Scheduled V).1.comms (Scheduled.init : Scheduled V).2 :=
  paces_of (fun _ _ => rfl) fun name g hg => by
    rw [show (Scheduled.init : Scheduled V).1.comms.tagGroups = ∅ from rfl,
      Std.ExtTreeMap.getElem?_empty] at hg
    cases hg

/-- The ticks of a run that do not go back, with the schedule. -/
theorem scheduled_notBack (turns : List (Turn V)) (h : Ascending turns) :
    Meets Scheduled.step
      (fun x l => ∀ ticks, l.ticks = some ticks → x.1.comms.lastTicks ≤ ticks)
      Scheduled.init turns := by
  have hnotBack := notBack_of_ascending Timed.init turns h fun ticks _ => UInt64.zero_le
  have hplain := (meets_watch Shared.step Clock.note
    (fun m l => ∀ ticks, l.ticks = some ticks → m.comms.lastTicks ≤ ticks) Timed.init turns).mp
      hnotBack
  exact (meets_watch Shared.step Schedule.note
    (fun m l => ∀ ticks, l.ticks = some ticks → m.comms.lastTicks ≤ ticks) Scheduled.init turns).mpr
      hplain

/-- In every run whose ticks do not go back, a running frame polls exactly the groups that no frame
has polled since they were registered, and those whose interval has passed since the frame that
polled them last. -/
theorem polls_on_time (turns : List (Turn V)) (h : Ascending turns) :
    Meets Scheduled.step OnTime Scheduled.init turns :=
  Meets.mono Scheduled.step (J := fun x => Paces x.1.comms x.2) paces_step
    (fun _ _ hpaces hticks => onTime_of_paces hpaces hticks) paces_init (scheduled_notBack turns h)

/-- A group is polled, and the simulation is stopped for five seconds. -/
def pausedBetween : List (Turn Bool) :=
  [.call (.registerTagGroup "G".toList 100 .s7), .call (.setSimRunning true),
    .call (.process 16000), .call (.process 32000), .call (.setSimRunning false),
    .call (.process 48000), .call (.setSimRunning true), .call (.process 5048000)]

/-- A pause between two polls. -/
theorem pausedBetween_on_time : Meets Scheduled.step OnTime Scheduled.init pausedBetween :=
  polls_on_time pausedBetween (by decide)

/-- In every state of such a run, the polls of a group since it was registered, but for one, take an
interval each. -/
theorem poll_rate (turns : List (Turn V)) (h : Ascending turns) :
    Along Scheduled.step Sparse Scheduled.init turns := by
  refine (along_of_meets Scheduled.step (J := fun x => Paces x.1.comms x.2) paces_step paces_init
    (scheduled_notBack turns h)).mono _ fun x hpaces name g polls hg hpolls => ?_
  have hpaced := hpaces.some hg
  rw [hpolls] at hpaced
  exact hpaced.2.2

/-- The polls before and after a pause. -/
theorem pausedBetween_rate : Along Scheduled.step Sparse Scheduled.init pausedBetween :=
  poll_rate pausedBetween (by decide)

end OipComms.Comms
