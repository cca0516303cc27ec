import OipComms.Comms.Callers

/-!
# The wait before a group is announced

A group is announced when `startup_timer` has come to `register_wait_time`. The timer adds up the
times between running frames and is set back by idle ones, which leave `last_ticks` where it was: it
counts from the last running frame before the last idle one, so the first frame of a stretch adds
the whole pause to it. A stop and a start between two frames do not set it back at all.
`announcements_wait` says when this does no harm.
-/

namespace OipComms.Comms

open Run

universe u

variable {V : Type u}

/-- What `process` asks before it does anything. -/
def State.running (s : State V) : Bool := s.enableComms && s.simRunning

/-- The time from one tick to another. -/
def elapsed (since ticks : UInt64) : Int := (ticks.toNat : Int) - since.toNat

/-- The frames of a run: the last running one before the last idle one, and the first running one
since communication and simulation have both been on. -/
structure Clock where
  base : UInt64 := 0
  start : Option UInt64 := none

/-- A frame on the clock. -/
def Clock.frame (c : Clock) (s : State V) (ticks : UInt64) : Clock :=
  if s.running then { c with start := some (c.start.getD ticks) }
  else { c with base := s.lastTicks }

/-- What a step does to the clock. A stretch ends as soon as one of the two is off. -/
def Clock.note (m : Shared V) (l : Turn V) (c : Clock) : Clock :=
  let c :=
    match l with
    | .call (.process ticks) => c.frame m.comms ticks
    | _ => c
  if (m.step l).comms.running then c else { c with start := none }

/-- The machine with its clock. -/
abbrev Timed (V : Type u) := Shared V × Clock

def Timed.step : Timed V → Turn V → Timed V := watch Shared.step Clock.note

/-- The start of every run. -/
def Timed.init : Timed V := ({}, {})

/-- The first running frame of the stretch a frame at `ticks` is in. -/
def Clock.startAt (c : Clock) (ticks : UInt64) : UInt64 := c.start.getD ticks

/-- If the step is a frame that announces a group, then the wait has passed since the first running
frame of its stretch. -/
def Waits (x : Timed V) : Turn V → Prop
  | .call (.process ticks) => ∀ name, .tagGroupInitialized name ∈ (x.1.comms.process ticks).1 →
    registerWaitTime ≤ elapsed (x.2.startAt ticks) ticks
  | _ => True

/-- A group that has all its tags and was not announced. -/
def TagGroup.pending (g : TagGroup) : Bool :=
  !g.initCountEmitted && g.totalTagCount ≤ g.initCount

/-- If the step is a running frame that finds such a group, and the wait or more lies between the
last running frame before the last idle one and the running frame before this one, then the pause
that is counted, from the former to the first running frame of the stretch, is no longer than the
time from the latter to this frame. -/
def PauseShort (x : Timed V) : Turn V → Prop
  | .call (.process ticks) => x.1.comms.running = true →
    (x.1.comms.tagGroups.toList.any fun entry => entry.2.pending) = true →
    registerWaitTime ≤ elapsed x.2.base x.1.comms.lastTicks →
    elapsed x.2.base (x.2.startAt ticks) ≤ elapsed x.1.comms.lastTicks ticks
  | _ => True

instance (x : Timed V) (l : Turn V) : Decidable (PauseShort x l) := by
  unfold PauseShort
  split <;> infer_instance

/-- The tick of a step that is a frame. -/
def Turn.ticks : Turn V → Option UInt64
  | .call (.process ticks) => some ticks
  | _ => none

/-- If the step is a frame, its tick is not before that of the last running one. -/
def NotBack (x : Timed V) (l : Turn V) : Prop := ∀ ticks, l.ticks = some ticks →
  x.1.comms.lastTicks ≤ ticks

/-! ## The timer -/

/-- The timer counts from the last running frame before the last idle one, until it has counted
enough. -/
structure Counts (s : State V) (base : UInt64) : Prop where
  le : s.startupTimer ≤ elapsed base s.lastTicks
  eq : s.startupTimer ≤ registerWaitTime + 500000 → s.startupTimer = elapsed base s.lastTicks

/-- What leaves the timer. -/
theorem Counts.keep {s s' : State V} {base : UInt64} (h : Counts s base)
    (htimer : s'.startupTimer = s.startupTimer) (hticks : s'.lastTicks = s.lastTicks) :
    Counts s' base := by
  constructor
  · rw [htimer, hticks]
    exact h.le
  · rw [htimer, hticks]
    exact h.eq

/-- The timer has come to the wait if that much time has passed. -/
theorem Counts.waited_iff {s : State V} {base : UInt64} (h : Counts s base) :
    registerWaitTime ≤ s.startupTimer ↔ registerWaitTime ≤ elapsed base s.lastTicks := by
  constructor
  · exact fun hwaited => hwaited.trans h.le
  · intro hwaited
    by_contra hshort
    have heq := h.eq (by omega)
    omega

/-- A frame adds to the timer what has passed. -/
theorem counts_process {s : State V} {base ticks : UInt64} (h : Counts s base)
    (hticks : s.lastTicks ≤ ticks) :
    Counts (s.process ticks).2 (if s.running then base else s.lastTicks) := by
  have hdelta : s.delta ticks = elapsed s.lastTicks ticks := by
    have hle := UInt64.le_iff_toNat_le.mp hticks
    rw [State.delta, elapsed, UInt64.toNat_sub_of_le _ _ hticks]
    omega
  have hsum : elapsed base ticks = elapsed base s.lastTicks + elapsed s.lastTicks ticks := by
    simp only [elapsed]
    omega
  have hnonneg : 0 ≤ elapsed s.lastTicks ticks := by
    have hle := UInt64.le_iff_toNat_le.mp hticks
    rw [elapsed]
    omega
  unfold State.process State.running
  split
  · rename_i hrunning
    simp only [hdelta]
    by_cases hcounting : s.startupTimer ≤ registerWaitTime + 500000
    · have heq := h.eq hcounting
      constructor
      · show (if _ then _ else _) ≤ elapsed base ticks
        rw [if_pos hcounting]
        omega
      · intro _
        show (if _ then _ else _) = elapsed base ticks
        rw [if_pos hcounting]
        omega
    · have hle := h.le
      constructor
      · show (if _ then _ else _) ≤ elapsed base ticks
        rw [if_neg hcounting]
        omega
      · intro hstill
        have hstill : (if _ then _ else _) ≤ registerWaitTime + 500000 := hstill
        rw [if_neg hcounting] at hstill
        exact absurd hstill hcounting
  · constructor
    · show (0 : Int) ≤ elapsed s.lastTicks s.lastTicks
      rw [elapsed]
      omega
    · intro _
      show (0 : Int) = elapsed s.lastTicks s.lastTicks
      rw [elapsed]
      omega

/-- Only frames look at the timer. -/
theorem call_timer (s : State V) (c : Call V) (hframe : ∀ ticks, c ≠ .process ticks) :
    (s.call c).2.startupTimer = s.startupTimer ∧ (s.call c).2.lastTicks = s.lastTicks := by
  cases c with
  | registerTagGroup name pollingInterval protocol =>
    simp only [State.call, State.registerTagGroup]
    split <;> exact ⟨rfl, rfl⟩
  | registerTag name tagName ty =>
    simp only [State.call, State.registerTag]
    split
    · exact ⟨rfl, rfl⟩
    · cases s.tagGroups[name]? with
      | none => exact ⟨rfl, rfl⟩
      | some g =>
        simp only
        split <;> exact ⟨rfl, rfl⟩
  | setEnableComms value => exact ⟨rfl, rfl⟩
  | setSimRunning value => exact ⟨rfl, rfl⟩
  | process ticks => exact absurd rfl (hframe ticks)
  | write w =>
    simp only [State.call, State.write]
    split <;> exact ⟨rfl, rfl⟩
  | clearTagGroups =>
    simp only [State.call, State.clearTagGroups]
    split <;> exact ⟨rfl, rfl⟩

/-- A poll leaves the timer. -/
theorem processTagGroup_timer (s : State V) (name : CStr) (o : Polled) :
    (s.processTagGroup name o).2.startupTimer = s.startupTimer ∧
      (s.processTagGroup name o).2.lastTicks = s.lastTicks := by
  unfold State.processTagGroup
  split
  · cases s.tagGroups[name]? with
    | none => exact ⟨rfl, rfl⟩
    | some g =>
      simp only
      split <;> exact ⟨rfl, rfl⟩
  · exact ⟨rfl, rfl⟩

/-- The work thread leaves the timer. -/
theorem workStep_timer (m : Machine V) (handed : Handed) (polled : Polled) :
    (m.workStep handed polled).comms.startupTimer = m.comms.startupTimer ∧
      (m.workStep handed polled).comms.lastTicks = m.comms.lastTicks := by
  unfold Machine.workStep
  cases m.work with
  | pop =>
    simp only
    split <;> exact ⟨rfl, rfl⟩
  | flush name first =>
    simp only
    split <;> exact ⟨rfl, rfl⟩
  | handing name first w => exact ⟨rfl, rfl⟩
  | cleanup name => exact ⟨rfl, rfl⟩
  | process name => exact processTagGroup_timer m.comms name polled
  | push name => exact ⟨rfl, rfl⟩

/-- A step that is no frame leaves the timer. -/
theorem step_timer (m : Shared V) (l : Turn V) (hframe : l.ticks = none) :
    (m.step l).comms.startupTimer = m.comms.startupTimer ∧
      (m.step l).comms.lastTicks = m.comms.lastTicks := by
  cases l with
  | call c =>
    refine call_timer m.comms c fun ticks heq => ?_
    rw [heq] at hframe
    cases hframe
  | push i =>
    simp only [Shared.step]
    split <;> exact ⟨rfl, rfl⟩
  | work handed polled => exact workStep_timer m.worker handed polled

/-! ## The clock -/

/-- What the runs keep whose ticks do not go back. -/
def TimerCounts (x : Timed V) : Prop := Counts x.1.comms x.2.base

/-- The end of a stretch leaves the base. -/
theorem note_base (m : Shared V) (l : Turn V) (c : Clock) :
    (c.note m l).base =
      if l.ticks.isSome ∧ m.comms.running = false then m.comms.lastTicks else c.base := by
  have hended : ∀ c' : Clock,
      (if (m.step l).comms.running then c' else { c' with start := none }).base = c'.base := by
    intro c'
    split <;> rfl
  unfold Clock.note
  simp only [hended]
  cases l with
  | push i => rfl
  | work handed polled => rfl
  | call c =>
    cases c with
    | process ticks =>
      simp only [Clock.frame, Turn.ticks, Option.isSome_some, true_and]
      cases m.comms.running <;> rfl
    | registerTagGroup _ _ _ | registerTag _ _ _ | setEnableComms _ | setSimRunning _ | write _
    | clearTagGroups => rfl

/-- Every step keeps the timer to its count. -/
theorem timerCounts_step (x : Timed V) (l : Turn V) (h : TimerCounts x) (hticks : NotBack x l) :
    TimerCounts (Timed.step x l) := by
  obtain ⟨m, c⟩ := x
  have hcounts : Counts m.comms c.base := h
  show Counts (m.step l).comms (c.note m l).base
  rw [note_base]
  cases htick : l.ticks with
  | none =>
    obtain ⟨htimer, hlast⟩ := step_timer m l htick
    simp only [Option.isSome_none, Bool.false_eq_true, false_and, if_false]
    exact hcounts.keep htimer hlast
  | some ticks =>
    obtain rfl : l = .call (.process ticks) := by
      cases l with
      | push i => cases htick
      | work handed polled => cases htick
      | call call =>
        cases call with
        | process ticks' =>
          obtain rfl := Option.some.inj htick
          rfl
        | registerTagGroup _ _ _ | registerTag _ _ _ | setEnableComms _ | setSimRunning _
        | write _ | clearTagGroups => cases htick
    have hprocess := counts_process hcounts (hticks ticks rfl)
    simp only [Option.isSome_some, true_and]
    cases hrunning : m.comms.running with
    | true =>
      rw [hrunning] at hprocess
      exact hprocess
    | false =>
      rw [hrunning] at hprocess
      exact hprocess

/-! ## Announcements -/

/-- A group is announced if it has all its tags and the timer has come to the wait. -/
theorem announces_iff (g : TagGroup) (startupTimer : Int) :
    g.announces startupTimer = true ↔ registerWaitTime ≤ startupTimer ∧ g.pending = true := by
  simp only [TagGroup.announces, TagGroup.pending, Bool.and_eq_true, decide_eq_true_eq, and_assoc]

/-- A frame announces a group under its own name. -/
theorem announced_iff (g : TagGroup) (name other : CStr) (delta startupTimer : Int) :
    .tagGroupInitialized name ∈ g.signals other delta startupTimer ↔
      other = name ∧ g.announces startupTimer = true := by
  simp only [TagGroup.signals, List.mem_append]
  constructor
  · rintro ((hpolled | hinit) | hrecovered)
    · split at hpolled
      · cases List.mem_singleton.mp hpolled
      · cases hpolled
    · split at hinit
      · rename_i hannounces
        exact ⟨(Signal.tagGroupInitialized.inj (List.mem_singleton.mp hinit)).symm, hannounces⟩
      · cases hinit
    · split at hrecovered
      · cases List.mem_singleton.mp hrecovered
      · cases hrecovered
  · rintro ⟨rfl, hannounces⟩
    rw [if_pos hannounces]
    exact .inl (.inr (List.mem_singleton.mpr rfl))

/-- A frame announces a group when it runs, the timer is up and a group is pending. -/
theorem process_announces_iff (s : State V) (ticks : UInt64) :
    (∃ name, .tagGroupInitialized name ∈ (s.process ticks).1) ↔
      s.running = true ∧ registerWaitTime ≤ s.startupTimer ∧
        (s.tagGroups.toList.any fun entry => entry.2.pending) = true := by
  unfold State.process State.running
  split
  · rename_i hrunning
    simp only [hrunning, true_and, List.mem_flatMap, announced_iff, announces_iff, List.any_eq_true]
    constructor
    · rintro ⟨name, entry, hmem, -, hwaited, hpending⟩
      exact ⟨hwaited, entry, hmem, hpending⟩
    · rintro ⟨hwaited, entry, hmem, hpending⟩
      exact ⟨entry.1, entry, hmem, rfl, hwaited, hpending⟩
  · rename_i hrunning
    simp only [List.not_mem_nil, exists_false, hrunning, Bool.false_eq_true, false_and]

/-- A pause no longer than the time to the announcing frame is made up for by that time. -/
theorem waits_of_pauseShort (x : Timed V) (l : Turn V) (h : TimerCounts x) (hshort : PauseShort x l) :
    Waits x l := by
  cases l with
  | push i => trivial
  | work handed polled => trivial
  | call c =>
    cases c with
    | process ticks =>
      intro name hname
      obtain ⟨hrunning, htimer, hpending⟩ :=
        (process_announces_iff x.1.comms ticks).mp ⟨name, hname⟩
      have hcounted := h.waited_iff.mp htimer
      have hpause := hshort hrunning hpending hcounted
      simp only [elapsed] at hcounted hpause ⊢
      omega
    | registerTagGroup _ _ _ | registerTag _ _ _ | setEnableComms _ | setSimRunning _ | write _
    | clearTagGroups => trivial

/-! ## Runs -/

/-- The ticks of the frames do not go back. -/
def Ascending (turns : List (Turn V)) : Prop := (turns.filterMap Turn.ticks).Pairwise (· ≤ ·)

instance (turns : List (Turn V)) : Decidable (Ascending turns) := by
  unfold Ascending
  infer_instance

/-- A frame leaves `last_ticks` or sets it to its own tick. -/
theorem lastTicks_le (m : Shared V) (l : Turn V) {ticks : UInt64} (hlast : m.comms.lastTicks ≤ ticks)
    (hframe : ∀ t, l.ticks = some t → t ≤ ticks) : (m.step l).comms.lastTicks ≤ ticks := by
  cases htick : l.ticks with
  | none => exact (step_timer m l htick).2 ▸ hlast
  | some t =>
    cases l with
    | push i => cases htick
    | work handed polled => cases htick
    | call c =>
      cases c with
      | process ticks' =>
        simp only [Shared.step, State.call, State.process]
        split
        · exact hframe ticks' rfl
        · exact hlast
      | registerTagGroup _ _ _ | registerTag _ _ _ | setEnableComms _ | setSimRunning _ | write _
      | clearTagGroups => cases htick

/-- Where the ticks ascend, no frame goes back. -/
theorem notBack_of_ascending (x : Timed V) (turns : List (Turn V)) (h : Ascending turns)
    (hlast : ∀ ticks ∈ turns.filterMap Turn.ticks, x.1.comms.lastTicks ≤ ticks) :
    Meets Timed.step NotBack x turns := by
  induction turns generalizing x with
  | nil => trivial
  | cons l turns ih =>
    unfold Ascending at h
    cases htick : l.ticks with
    | none =>
      rw [List.filterMap_cons_none htick] at h hlast
      refine ⟨fun ticks hsome => ?_, ih _ h fun ticks hmem => ?_⟩
      · rw [htick] at hsome
        cases hsome
      · refine lastTicks_le x.1 l (hlast ticks hmem) fun t hsome => ?_
        rw [htick] at hsome
        cases hsome
    | some t =>
      rw [List.filterMap_cons_some htick] at h hlast
      obtain ⟨hfirst, hrest⟩ := List.pairwise_cons.mp h
      refine ⟨fun ticks hsome => ?_, ih _ hrest fun ticks hmem => ?_⟩
      · rw [htick] at hsome
        obtain rfl := Option.some.inj hsome
        exact hlast t List.mem_cons_self
      · refine lastTicks_le x.1 l (hlast ticks (List.mem_cons_of_mem _ hmem)) fun t' hsome => ?_
        rw [htick] at hsome
        obtain rfl := Option.some.inj hsome
        exact hfirst ticks hmem

/-- In a run whose ticks do not go back, every announcement comes after the wait, if no pause that is
counted is longer than the time to the frame that finds a group to announce. -/
theorem announcements_wait (turns : List (Turn V)) (h : Ascending turns)
    (hshort : Meets Timed.step PauseShort Timed.init turns) :
    Meets Timed.step Waits Timed.init turns := by
  have hcounts : Along Timed.step TimerCounts Timed.init turns :=
    along_of_meets Timed.step timerCounts_step ⟨Int.le_refl 0, fun _ => rfl⟩
      (notBack_of_ascending _ turns h fun ticks _ => UInt64.zero_le)
  exact hcounts.meets Timed.step waits_of_pauseShort hshort

/-- The simulation is started ten seconds after the engine, and two frames are drawn. -/
def startedLate : List (Turn Bool) :=
  [.call (.registerTagGroup "G".toList 100 .s7), .call (.setSimRunning true),
    .call (.process 10000000), .call (.process 10016000)]

/-- The first frames after a late start announce a group without tags. -/
theorem announced_at_once : ¬ Meets Timed.step Waits Timed.init startedLate := by
  intro h
  have hlast := (meets_iff_split _ _ _ _).mp h _ (.call (.process 10016000)) []
    (List.dropLast_append_getLast (List.cons_ne_nil _ _)).symm
  have hwaited := hlast "G".toList (by decide)
  revert hwaited
  decide

/-- A group registered in time is announced after the wait. -/
theorem announced_in_time : Meets Timed.step Waits Timed.init
    ([.call (.registerTagGroup "G".toList 100 .s7), .call (.setSimRunning true),
      .call (.process 16000), .call (.process 516000), .call (.process 532000)] :
      List (Turn Bool)) :=
  announcements_wait _ (by decide) (by decide)

end OipComms.Comms
