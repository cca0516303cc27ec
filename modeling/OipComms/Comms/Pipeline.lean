import OipComms.Comms.Callers

/-!
# The pipeline of writes

A write goes into one queue and the name that wakes the work thread into another, after it. The
names there are also those of polls and of clean-ups, and one flush may hand over the writes of many
of them. Still the writes are handed over in the order they were accepted, each once, and none is
left in the queue with the work thread asleep, but for the time a call has yet to push.
-/

namespace OipComms.Comms

open Run

universe u

variable {V : Type u}

/-- The writes accepted and the writes handed to `process_write`, each in its order. -/
structure Ledger (V : Type u) where
  accepted : List (WriteRequest V) := []
  handed : List (WriteRequest V) := []

/-- The write a call adds to the queue. -/
def State.acceptedBy (s : State V) : Call V → List (WriteRequest V)
  | .write w => if s.takes w then [w] else []
  | _ => []

/-- What a step adds to the ledger. The step of the work thread with a write in its hand is
`process_write`. -/
def Ledger.note (m : Shared V) (l : Turn V) (h : Ledger V) : Ledger V :=
  match l with
  | .call c => { h with accepted := h.accepted ++ m.comms.acceptedBy c }
  | .push _ => h
  | .work _ _ => { h with handed := h.handed ++ m.work.inHand }

/-- The machine with its ledger. -/
abbrev Piped (V : Type u) := Shared V × Ledger V

def Piped.step : Piped V → Turn V → Piped V := watch Shared.step Ledger.note

/-- The start of every run. -/
def Piped.init : Piped V := ({}, {})

/-- The work thread is between a pop and the end of the last `flush_all_writes` of its turn. -/
def Work.draining : Work V → Bool
  | .flush _ _ | .handing _ _ _ | .cleanup _ => true
  | .pop | .process _ | .push _ => false

/-- The accepted writes are those handed over, the one in the hand of the work thread and those in
the queue, in this order. -/
def InOrder (x : Piped V) : Prop :=
  x.2.accepted = x.2.handed ++ (x.1.work.inHand ++ x.1.comms.writeQueue)

/-- No write lies in the queue unheeded: if every write has pushed its name, there is a name to wake
the work thread, or it is awake and has yet to find the queue empty. -/
def Shared.Awake (m : Shared V) : Prop :=
  [] ∉ m.pushing → m.comms.writeQueue ≠ [] → m.comms.tagGroupQueue ≠ [] ∨ m.work.draining = true

/-! ## Calls -/

section
variable (s : State V) (c : Call V)

/-- A method queues the write it accepts. -/
theorem call_writeQueue : (s.call c).2.writeQueue = s.writeQueue ++ s.acceptedBy c := by
  cases c with
  | registerTagGroup name pollingInterval protocol =>
    simp only [State.call, State.registerTagGroup, State.acceptedBy, List.append_nil]
    split <;> rfl
  | registerTag name tagName ty =>
    exact (registerTag_frame s name tagName ty).1.trans (List.append_nil _).symm
  | setEnableComms value => exact (List.append_nil _).symm
  | setSimRunning value => exact (List.append_nil _).symm
  | process ticks =>
    simp only [State.call, State.process, State.acceptedBy, List.append_nil]
    split <;> rfl
  | write w =>
    simp only [State.call, State.write, State.acceptedBy]
    split
    · rfl
    · exact (List.append_nil _).symm
  | clearTagGroups => exact (clearTagGroups_frame s).1.trans (List.append_nil _).symm

/-- A call takes no name from the queue. -/
theorem call_tagGroupQueue (h : s.tagGroupQueue ≠ []) : (s.call c).2.tagGroupQueue ≠ [] := by
  cases c with
  | registerTagGroup name pollingInterval protocol =>
    exact fun hnil => h ((registerTagGroup_queue s name pollingInterval protocol).symm.trans hnil)
  | registerTag name tagName ty =>
    exact fun hnil => h ((registerTag_queue s name tagName ty).symm.trans hnil)
  | setEnableComms value => exact h
  | setSimRunning value => exact h
  | process ticks =>
    intro hnil
    exact h (List.append_eq_nil_iff.mp ((process_queue s ticks).symm.trans hnil)).1
  | write w => exact fun hnil => h ((write_queue s w).symm.trans hnil)
  | clearTagGroups => exact fun hnil => h ((clearTagGroups_queue s).symm.trans hnil)

/-- An accepted write has the empty name to push. -/
theorem call_pushes (h : s.acceptedBy c ≠ []) : (s.call c).1 = some [] := by
  cases c with
  | write w =>
    simp only [State.acceptedBy] at h
    simp only [State.call, State.write]
    split
    · rfl
    · rename_i htakes
      exact absurd (if_neg htakes) h
  | registerTagGroup _ _ _ | registerTag _ _ _ | setEnableComms _ | setSimRunning _ | process _
  | clearTagGroups => exact absurd rfl h

end

/-! ## The order of the writes -/

/-- A step of the work thread takes the first write into its hand, or hands over the one it has, or
touches no write. -/
theorem workStep_writes (m : Machine V) (handed : Handed) (polled : Polled) :
    m.work.inHand ++
        ((m.workStep handed polled).work.inHand ++ (m.workStep handed polled).comms.writeQueue) =
      m.work.inHand ++ m.comms.writeQueue := by
  unfold Machine.workStep
  cases hwork : m.work with
  | pop =>
    simp only
    split
    · simp only [hwork]
      rfl
    · rfl
  | flush name first =>
    simp only
    cases hqueue : m.comms.writeQueue with
    | nil =>
      simp only [hqueue]
      split <;> rfl
    | cons w rest => rfl
  | handing name first w => rfl
  | cleanup name => rfl
  | process name =>
    simp only [(processTagGroup_frame m.comms name polled).1]
    cases (m.comms.processTagGroup name polled).1 <;> rfl
  | push name => rfl

/-- Every step keeps the writes in their order. -/
theorem inOrder_step (x : Piped V) (l : Turn V) (h : InOrder x) : InOrder (Piped.step x l) := by
  obtain ⟨m, ledger⟩ := x
  have haccount : ledger.accepted = ledger.handed ++ (m.work.inHand ++ m.comms.writeQueue) := h
  cases l with
  | call c =>
    show ledger.accepted ++ _ = ledger.handed ++ (m.work.inHand ++ (m.comms.call c).2.writeQueue)
    rw [call_writeQueue, haccount, List.append_assoc, List.append_assoc]
  | push i =>
    show InOrder (Shared.step m (.push i), ledger)
    simp only [Shared.step]
    cases m.pushing[i]? with
    | none => exact h
    | some name => exact h
  | work handed polled =>
    have hwrites := workStep_writes m.worker handed polled
    show ledger.accepted = ledger.handed ++ m.work.inHand ++ _
    rw [List.append_assoc, haccount]
    exact congrArg (ledger.handed ++ ·) hwrites.symm

/-! ## Waking the work thread -/

/-- A method that queues a write owes a push. -/
theorem awake_call {m : Shared V} (h : m.Awake) (c : Call V) : (m.step (.call c)).Awake := by
  intro hpushed hqueue
  have hpushed : [] ∉ m.pushing ++ (m.comms.call c).1.toList := hpushed
  have hqueue : (m.comms.call c).2.writeQueue ≠ [] := hqueue
  rw [List.mem_append, not_or] at hpushed
  have hnone : m.comms.acceptedBy c = [] := by
    by_contra haccepted
    refine hpushed.2 ?_
    rw [call_pushes _ _ haccepted]
    exact List.mem_singleton.mpr rfl
  rw [call_writeQueue, hnone, List.append_nil] at hqueue
  exact (h hpushed.1 hqueue).imp_left (call_tagGroupQueue m.comms c)

/-- The push that is owed wakes the work thread. -/
theorem awake_push {m : Shared V} (h : m.Awake) (i : Nat) : (m.step (.push i)).Awake := by
  simp only [Shared.step]
  cases m.pushing[i]? with
  | none => exact h
  | some name =>
    intro _ _
    exact .inl (List.append_ne_nil_of_right_ne_nil _ (List.cons_ne_nil _ _))

/-- The work thread does not sleep on a write. -/
theorem awake_work {m : Shared V} (h : m.Awake) (handed : Handed) (polled : Polled) :
    (m.step (.work handed polled)).Awake := by
  intro hpushed hqueue
  have hpushed : [] ∉ m.pushing := hpushed
  have hbefore := h hpushed
  revert hqueue
  simp only [Shared.step, Machine.workStep, Shared.worker]
  cases hwork : m.work with
  | pop =>
    cases hnames : m.comms.tagGroupQueue with
    | nil =>
      -- there is no name to take, so there is no write either
      intro hqueue
      have hawake := hbefore hqueue
      rw [hnames, hwork] at hawake
      exact absurd (hawake.resolve_right Bool.false_ne_true) (not_not_intro rfl)
    | cons name rest => exact fun _ => .inr rfl
  | flush name first =>
    cases hwrites : m.comms.writeQueue with
    | nil =>
      intro hqueue
      exact absurd hwrites hqueue
    | cons w rest => exact fun _ => .inr rfl
  | handing name first w => exact fun _ => .inr rfl
  | cleanup name => exact fun _ => .inr rfl
  | process name =>
    -- the last flush found the queue empty, so a write that is there came with a name
    intro hqueue
    simp only [(processTagGroup_frame m.comms name polled).1] at hqueue
    simp only [processTagGroup_queue]
    rw [hwork] at hbefore
    exact .inl ((hbefore hqueue).resolve_right Bool.false_ne_true)
  | push name =>
    exact fun _ => .inl (List.append_ne_nil_of_right_ne_nil _ (List.cons_ne_nil _ _))

/-- Every step leaves the work thread awake or about to be woken. -/
theorem awake_step (m : Shared V) (l : Turn V) (h : m.Awake) : (m.step l).Awake := by
  cases l with
  | call c => exact awake_call h c
  | push i => exact awake_push h i
  | work handed polled => exact awake_work h handed polled

/-! ## Runs -/

/-- What every run keeps. -/
structure Flowing (x : Piped V) : Prop where
  inOrder : InOrder x
  awake : x.1.Awake

/-- At first nothing is to flow. -/
theorem flowing_init : Flowing (Piped.init : Piped V) :=
  ⟨rfl, fun _ hqueue => absurd rfl hqueue⟩

/-- Every step lets the writes flow. -/
theorem flowing_step (x : Piped V) (l : Turn V) (h : Flowing x) : Flowing (Piped.step x l) :=
  ⟨inOrder_step x l h.inOrder, awake_step x.1 l h.awake⟩

/-- In every state of every run the writes handed over are the first of those accepted, the others
are in the hand of the work thread and in the queue, and the work thread is awake to them. -/
theorem writes_flow (turns : List (Turn V)) :
    Along Piped.step
      (fun x => x.2.handed <+: x.2.accepted ∧
        x.2.accepted.drop x.2.handed.length = x.1.work.inHand ++ x.1.comms.writeQueue ∧
        ([] ∉ x.1.pushing → x.1.comms.writeQueue ≠ [] →
          x.1.comms.tagGroupQueue ≠ [] ∨ x.1.work.draining = true))
      Piped.init turns := by
  have hflowing := along_of_invariant _ flowing_step (flowing_init (V := V)) turns
  refine hflowing.mono _ fun x h => ?_
  have hinOrder : x.2.accepted = _ := h.inOrder
  refine ⟨?_, ?_, h.awake⟩
  · rw [hinOrder]
    exact List.prefix_append _ _
  · rw [hinOrder]
    exact List.drop_left

end OipComms.Comms
