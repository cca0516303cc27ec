import OipComms.Comms.Worker

/-!
# The writes before a stop

The work thread hands over every write before it cleans up. `clear_tag_groups` cleans up where it is
called, and looks at neither the queue nor the work thread: a write of a group it clears that was
not handed over by then is handed to a group that is not there any more. Nothing else loses a write.

`Booked` is the account of the writes: the accepted ones are those handed over, the one in the hand
of the work thread and those in the queue, in this order.
-/

namespace OipComms.Comms

open Run

universe u

variable {V : Type u}

/-- The writes are handed over in the order they were accepted, and those of the first `n` that are
still to be handed over are of groups that are not there. -/
def Delivered (x : Watched V) (n : Nat) : Prop :=
  x.2.handed <+: x.2.accepted ∧
    ∀ w ∈ (x.2.accepted.take n).drop x.2.handed.length,
      x.1.comms.tagGroupExists w.tagGroupName = false

/-- If the step is a clean-up, the writes accepted before its stop were handed over. -/
def Delivers (x : Watched V) : Label V → Prop
  | .work _ _ => ∀ name n accepted, x.1.work = .cleanup name → x.2.current = .stop n accepted →
    Delivered x accepted
  | .call .clearTagGroups => x.1.pushing = none → x.1.comms.simRunning = false →
    Delivered x x.2.stoppedAt
  | _ => True

/-- If the step clears the groups, then none of them has a write in the queue or in the hand of the
work thread. -/
def Machine.ClearsDrained (m : Machine V) : Label V → Prop
  | .call .clearTagGroups => m.pushing = none → m.comms.simRunning = false →
    ∀ w ∈ m.work.inHand ++ m.comms.writeQueue, m.comms.tagGroupExists w.tagGroupName = false
  | _ => True

instance (m : Machine V) (l : Label V) : Decidable (m.ClearsDrained l) :=
  match l with
  | .call .clearTagGroups => inferInstanceAs (Decidable (m.pushing = none →
      m.comms.simRunning = false → ∀ w ∈ m.work.inHand ++ m.comms.writeQueue,
        m.comms.tagGroupExists w.tagGroupName = false))
  | .call (.registerTagGroup _ _ _) | .call (.registerTag _ _ _) | .call (.setEnableComms _)
  | .call (.setSimRunning _) | .call (.process _) | .call (.write _) | .push | .work _ _ =>
    .isTrue trivial

/-! ## The account of the writes -/

/-- What every run keeps. -/
structure Booked (x : Watched V) : Prop where
  account : x.2.accepted = x.2.handed ++ (x.1.work.inHand ++ x.1.comms.writeQueue)
  snapshots : ∀ n k, .stop n k ∈ x.2.current :: x.2.origins → k ≤ x.2.accepted.length
  drained : ∀ name n k, x.1.work = .cleanup name → x.2.current = .stop n k →
    k ≤ x.2.handed.length
  stopped : x.1.comms.simRunning = false → x.2.stoppedAt = x.2.accepted.length

/-- The account by where the work thread stands. -/
theorem Booked.account_at {m : Machine V} {h : History V} (hbooked : Booked (m, h)) {work : Work V}
    (hwork : m.work = work) : h.accepted = h.handed ++ (work.inHand ++ m.comms.writeQueue) := by
  rw [← hwork]
  exact hbooked.account

/-- A step that takes no write, hands none over and leaves the flag. -/
theorem Booked.idle {m m' : Machine V} {h h' : History V} (hbooked : Booked (m, h))
    (hqueue : m'.comms.writeQueue = m.comms.writeQueue)
    (hrunning : m'.comms.simRunning = m.comms.simRunning)
    (hinHand : m'.work.inHand = m.work.inHand)
    (hcleanup : ∀ name, m'.work = .cleanup name → m.work = .cleanup name)
    (haccepted : h'.accepted = h.accepted) (hhanded : h'.handed = h.handed)
    (hstopped : h'.stoppedAt = h.stoppedAt) (hcurrent : h'.current = h.current)
    (horigins : ∀ n k, .stop n k ∈ h'.origins → .stop n k ∈ h.origins ∨ k ≤ h.accepted.length) :
    Booked (m', h') := by
  constructor
  · simp only [haccepted, hhanded, hinHand, hqueue]
    exact hbooked.account
  · intro n k hmem
    simp only [hcurrent, List.mem_cons] at hmem
    simp only [haccepted]
    rcases hmem with hmem | hmem
    · exact hbooked.snapshots n k (List.mem_cons.mpr (.inl hmem))
    · rcases horigins n k hmem with hmem | hle
      · exact hbooked.snapshots n k (List.mem_cons_of_mem _ hmem)
      · exact hle
  · intro name n k hwork
    simp only [hcurrent, hhanded]
    exact hbooked.drained name n k (hcleanup name hwork)
  · simp only [hrunning, hstopped, haccepted]
    exact hbooked.stopped

/-- A name is pushed. -/
theorem Booked.push {m m' : Machine V} {h : History V} (hbooked : Booked (m, h)) (name : CStr)
    (hcomms : m'.comms = m.comms.queueTagGroup name)
    (hinHand : m'.work.inHand = m.work.inHand)
    (hcleanup : ∀ name, m'.work = .cleanup name → m.work = .cleanup name) :
    Booked (m', h.push name) := by
  have hqueue : m'.comms.writeQueue = m.comms.writeQueue := by
    rw [hcomms]
    rfl
  have hrunning : m'.comms.simRunning = m.comms.simRunning := by
    rw [hcomms]
    rfl
  unfold History.push
  split
  · refine hbooked.idle hqueue hrunning hinHand hcleanup rfl rfl rfl rfl ?_
    intro n k hmem
    refine (List.mem_append.mp hmem).imp_right fun hstop => ?_
    obtain ⟨-, rfl⟩ := Origin.stop.inj (List.mem_singleton.mp hstop)
    exact Nat.le_refl _
  · refine hbooked.idle hqueue hrunning hinHand hcleanup rfl rfl rfl rfl ?_
    intro n k hmem
    refine (List.mem_append.mp hmem).imp_right fun hwrite => ?_
    cases List.mem_singleton.mp hwrite

/-- A name is taken from the queue. -/
theorem Booked.pop {m m' : Machine V} {h : History V} (hbooked : Booked (m, h))
    (hqueue : m'.comms.writeQueue = m.comms.writeQueue)
    (hrunning : m'.comms.simRunning = m.comms.simRunning)
    (hinHand : m'.work.inHand = m.work.inHand) (hcleanup : ∀ name, m'.work ≠ .cleanup name) :
    Booked (m', h.pop) := by
  have hkept : ∀ n k, .stop n k ∈ h.pop.current :: h.pop.origins →
      .stop n k ∈ h.current :: h.origins := by
    intro n k hmem
    unfold History.pop at hmem
    cases horigins : h.origins with
    | nil => simpa only [horigins] using hmem
    | cons o rest => exact List.mem_cons_of_mem _ (by simpa only [horigins] using hmem)
  have hwrites : h.pop.accepted = h.accepted ∧ h.pop.handed = h.handed ∧
      h.pop.stoppedAt = h.stoppedAt := by
    unfold History.pop
    split <;> exact ⟨rfl, rfl, rfl⟩
  obtain ⟨haccepted, hhanded, hstopped⟩ := hwrites
  constructor
  · simp only [haccepted, hhanded, hinHand, hqueue]
    exact hbooked.account
  · intro n k hmem
    simp only [haccepted]
    exact hbooked.snapshots n k (hkept n k hmem)
  · exact fun name n k hwork => absurd hwork (hcleanup name)
  · simp only [hrunning, hstopped, haccepted]
    exact hbooked.stopped

/-- A method books what it makes pending. -/
theorem booked_call {m : Machine V} {h : History V} (hbooked : Booked (m, h)) (c : Call V) :
    Booked ({ m with comms := (m.comms.call c).2, pushing := (m.comms.call c).1 },
      h.call m.comms c) := by
  cases c with
  | registerTagGroup name pollingInterval protocol =>
    refine hbooked.idle ?_ ?_ rfl (fun _ => id) rfl rfl rfl rfl fun n k => .inl
    · simp only [State.call, State.registerTagGroup]
      split <;> rfl
    · simp only [State.call, State.registerTagGroup]
      split <;> rfl
  | registerTag name tagName ty =>
    have hframe := registerTag_frame m.comms name tagName ty
    simp only [History.call]
    split
    · exact hbooked.idle hframe.1 hframe.2 rfl (fun _ => id) rfl rfl rfl rfl fun n k => .inl
    · exact hbooked.idle hframe.1 hframe.2 rfl (fun _ => id) rfl rfl rfl rfl fun n k => .inl
  | setEnableComms value => exact ⟨hbooked.1, hbooked.2, hbooked.3, hbooked.4⟩
  | setSimRunning value =>
    cases value with
    | true => exact ⟨hbooked.1, hbooked.2, hbooked.3, fun hfalse => nomatch hfalse⟩
    | false => exact ⟨hbooked.1, hbooked.2, hbooked.3, fun _ => rfl⟩
  | process ticks =>
    refine hbooked.idle ?_ ?_ rfl (fun _ => id) rfl rfl rfl rfl ?_
    · simp only [State.call, State.process]
      split <;> rfl
    · simp only [State.call, State.process]
      split <;> rfl
    · intro n k hmem
      refine (List.mem_append.mp hmem).imp_right fun hframe => ?_
      obtain ⟨name, -, hstop⟩ := List.mem_map.mp hframe
      cases hstop
  | write w =>
    simp only [History.call, State.call, State.write]
    by_cases htakes : m.comms.takes w = true
    · simp only [if_pos htakes]
      have hrunning : m.comms.simRunning = true := by
        unfold State.takes at htakes
        rw [Bool.and_eq_true, Bool.and_eq_true] at htakes
        exact htakes.1.2
      have hlonger : h.accepted.length ≤ (h.accepted ++ [w]).length := by
        rw [List.length_append]
        exact Nat.le_add_right _ _
      constructor
      · show h.accepted ++ [w] = h.handed ++ (m.work.inHand ++ (m.comms.writeQueue ++ [w]))
        have haccount : h.accepted = h.handed ++ (m.work.inHand ++ m.comms.writeQueue) :=
          hbooked.account
        rw [haccount, List.append_assoc, List.append_assoc]
      · exact fun n k hmem => (hbooked.snapshots n k hmem).trans hlonger
      · exact hbooked.drained
      · intro hfalse
        have hfalse : m.comms.simRunning = false := hfalse
        rw [hrunning] at hfalse
        cases hfalse
    · simp only [if_neg htakes]
      exact ⟨hbooked.1, hbooked.2, hbooked.3, hbooked.4⟩
  | clearTagGroups =>
    have hframe := clearTagGroups_frame m.comms
    simp only [History.call]
    split
    · exact hbooked.idle hframe.1 hframe.2 rfl (fun _ => id) rfl rfl rfl rfl fun n k => .inl
    · exact hbooked.idle hframe.1 hframe.2 rfl (fun _ => id) rfl rfl rfl rfl fun n k => .inl

/-- A step of the work thread books what it delivers. -/
theorem booked_workStep {m : Machine V} {h : History V} (hbooked : Booked (m, h))
    (handed : Handed) (polled : Polled) :
    Booked (m.workStep handed polled, h.workStep m polled) := by
  unfold Machine.workStep History.workStep
  cases hwork : m.work with
  | pop =>
    simp only
    cases m.comms.tagGroupQueue with
    | nil =>
      refine hbooked.pop rfl rfl rfl ?_
      rw [hwork]
      exact fun name hcleanup => nomatch hcleanup
    | cons name rest =>
      exact hbooked.pop rfl rfl (congrArg Work.inHand hwork).symm fun name hcleanup =>
        nomatch hcleanup
  | flush name first =>
    simp only
    have haccount := hbooked.account_at hwork
    cases hqueue : m.comms.writeQueue with
    | nil =>
      -- the queue was found empty, so a clean-up that follows has nothing before it
      simp only [hqueue, Work.inHand, List.append_nil] at haccount
      refine ⟨?_, hbooked.snapshots, ?_, hbooked.stopped⟩
      · show h.accepted = h.handed ++ (Work.inHand (if first then _ else _) ++ m.comms.writeQueue)
        rw [hqueue, haccount]
        cases first <;> exact (List.append_nil _).symm
      · intro name' n k _ hcurrent
        have hle := hbooked.snapshots n k (List.mem_cons.mpr (.inl hcurrent.symm))
        simpa only [haccount] using hle
    | cons w rest =>
      refine ⟨?_, hbooked.snapshots, fun name' n k hcleanup => (nomatch hcleanup), hbooked.stopped⟩
      show h.accepted = h.handed ++ ([w] ++ rest)
      rw [haccount, hqueue]
      rfl
  | handing name first w =>
    refine ⟨?_, hbooked.snapshots, fun name' n k hcleanup => (nomatch hcleanup), hbooked.stopped⟩
    show h.accepted = h.handed ++ [w] ++ m.comms.writeQueue
    rw [hbooked.account_at hwork, List.append_assoc]
    rfl
  | cleanup name =>
    have hcleaned : Booked ({ m with comms := m.comms.cleanupTagGroups, work := .flush name false },
        h) :=
      hbooked.idle rfl rfl (congrArg Work.inHand hwork).symm (fun _ hcleanup => nomatch hcleanup)
        rfl rfl rfl rfl fun n k => .inl
    simp only
    split
    · exact ⟨hcleaned.1, hcleaned.2, hcleaned.3, hcleaned.4⟩
    · exact hcleaned
  | process name =>
    obtain ⟨hqueue, hrunning⟩ := processTagGroup_frame m.comms name polled
    simp only
    cases hpush : (m.comms.processTagGroup name polled).1 with
    | none =>
      exact hbooked.idle hqueue (hrunning hpush) (congrArg Work.inHand hwork).symm
        (fun _ hcleanup => nomatch hcleanup) rfl rfl rfl rfl fun n k => .inl
    | some token =>
      refine ⟨?_, hbooked.snapshots, fun name' n k hcleanup => (nomatch hcleanup), fun _ => rfl⟩
      show h.accepted = h.handed ++ (m.comms.processTagGroup name polled).2.writeQueue
      rw [hqueue]
      exact hbooked.account_at hwork
  | push name =>
    exact hbooked.push name rfl (congrArg Work.inHand hwork).symm fun _ hcleanup =>
      nomatch hcleanup

/-- Every step keeps the books. -/
theorem booked_step (x : Watched V) (l : Label V) (hbooked : Booked x) :
    Booked (Watched.step x l) := by
  obtain ⟨m, h⟩ := x
  cases l with
  | call c =>
    show Booked (m.step (.call c), if m.pushing.isSome then h else h.call m.comms c)
    unfold Machine.step
    cases hpushing : m.pushing with
    | none => exact booked_call hbooked c
    | some name => exact hbooked
  | push =>
    show Booked (m.step .push, (m.pushing.map h.push).getD h)
    unfold Machine.step
    cases hpushing : m.pushing with
    | none => exact hbooked
    | some name => exact hbooked.push name rfl rfl fun _ => id
  | work handed polled => exact booked_workStep hbooked handed polled

/-- At first there is nothing to book. -/
theorem booked_init : Booked (Watched.init : Watched V) := by
  refine ⟨rfl, ?_, fun name n k hcleanup => (nomatch hcleanup), fun _ => rfl⟩
  intro n k hmem
  cases List.mem_singleton.mp hmem

/-! ## Runs -/

/-- The writes still to be handed over. -/
theorem Booked.rest {x : Watched V} (hbooked : Booked x) :
    x.2.handed <+: x.2.accepted ∧
      x.2.accepted.drop x.2.handed.length = x.1.work.inHand ++ x.1.comms.writeQueue := by
  rw [hbooked.account]
  exact ⟨List.prefix_append _ _, List.drop_left⟩

/-- A clean-up the work thread runs comes after the writes of its stop. -/
theorem Booked.delivered {x : Watched V} (hbooked : Booked x) {name : CStr} {n k : Nat}
    (hwork : x.1.work = .cleanup name) (hcurrent : x.2.current = .stop n k) : Delivered x k := by
  refine ⟨hbooked.rest.1, fun w hmem => ?_⟩
  have hle : (x.2.accepted.take k).length ≤ x.2.handed.length :=
    (List.length_take_le _ _).trans (hbooked.drained name n k hwork hcurrent)
  rw [List.drop_eq_nil_of_le hle] at hmem
  cases hmem

/-- In a state that a run can reach, the step's clean-up comes after the writes of its stop exactly
when it does not clear a group with a write still to be handed over. -/
theorem Booked.clears_iff_delivers {x : Watched V} (hbooked : Booked x) (l : Label V) :
    x.1.ClearsDrained l ↔ Delivers x l := by
  cases l with
  | work handed polled =>
    refine iff_of_true trivial ?_
    exact fun name n k hwork hcurrent => hbooked.delivered hwork hcurrent
  | push => exact iff_of_true trivial trivial
  | call c =>
    cases c with
    | clearTagGroups =>
      refine imp_congr_right fun hpushing => imp_congr_right fun hstopped => ?_
      obtain ⟨hfront, hrest⟩ := hbooked.rest
      rw [Delivered, hbooked.stopped hstopped, List.take_length, hrest]
      exact (and_iff_right hfront).symm
    | registerTagGroup name pollingInterval protocol => exact iff_of_true trivial trivial
    | registerTag name tagName ty => exact iff_of_true trivial trivial
    | setEnableComms value => exact iff_of_true trivial trivial
    | setSimRunning value => exact iff_of_true trivial trivial
    | process ticks => exact iff_of_true trivial trivial
    | write w => exact iff_of_true trivial trivial

/-- A run hands every write accepted before a stop over before the clean-up that follows it, unless
it clears a group that has a write still to be handed over. -/
theorem writes_delivered_iff_clears_drained (ops : List (Label V)) :
    Meets Watched.step Delivers Watched.init ops ↔
      Meets Machine.step Machine.ClearsDrained {} ops := by
  have hwatched : Meets Watched.step (fun x => x.1.ClearsDrained) Watched.init ops ↔
      Meets Machine.step Machine.ClearsDrained {} ops :=
    meets_watch Machine.step History.note Machine.ClearsDrained Watched.init ops
  rw [← hwatched]
  exact (meets_iff_meets _ booked_step (fun x l hbooked => hbooked.clears_iff_delivers l)
    booked_init ops).symm

/-- The groups are cleared before the work thread gets to the write. -/
def clearedBeforeDrain : List (Label Bool) :=
  started "G".toList ++ [.call (.write ⟨7, "G".toList, "MB0".toList, false⟩), .push,
    .call (.setSimRunning false), .push, .call .clearTagGroups]

/-- A write that a clear comes before is not delivered. -/
theorem write_lost_to_clear :
    ¬ Meets Watched.step Delivers Watched.init clearedBeforeDrain := by
  intro h
  have hlast := (meets_iff_split _ _ _ _).mp h _ (.call .clearTagGroups) []
    (List.dropLast_append_getLast (List.cons_ne_nil _ _)).symm
  have hgone := (hlast rfl rfl).2 ⟨7, "G".toList, "MB0".toList, false⟩ (by decide)
  revert hgone
  decide

end OipComms.Comms
