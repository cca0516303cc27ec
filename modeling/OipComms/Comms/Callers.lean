import OipComms.Comms.Worker

/-!
# Any number of callers

`Worker.lean` has one thread that calls the methods. Here any number of calls may be under way: each
takes effect in one step, and what it then pushes waits its turn beside what the others push. A run
of one caller is a run of this machine.
-/

namespace OipComms.Comms

open Run

universe u

variable {V : Type u}

/-- The object, the names that calls under way have yet to push, and where the work thread stands. -/
structure Shared (V : Type u) where
  comms : State V := {}
  pushing : List CStr := []
  work : Work V := .pop

/-- A step: a call up to its push, the `i`-th of the pushes that wait, or one of the work thread's. -/
inductive Turn (V : Type u)
  | call (c : Call V)
  | push (i : Nat)
  | work (handed : Handed) (polled : Polled)

/-- The object with its work thread alone. -/
def Shared.worker (m : Shared V) : Machine V := { comms := m.comms, work := m.work }

/-- A step of any of the callers or of the work thread. -/
def Shared.step (m : Shared V) : Turn V → Shared V
  | .call c =>
    { m with
      comms := (m.comms.call c).2
      pushing := m.pushing ++ (m.comms.call c).1.toList }
  | .push i =>
    match m.pushing[i]? with
    | none => m
    | some name =>
      { m with comms := m.comms.queueTagGroup name, pushing := m.pushing.eraseIdx i }
  | .work handed polled =>
    { m with
      comms := (m.worker.workStep handed polled).comms
      work := (m.worker.workStep handed polled).work }

/-- `quiet` among the turns. -/
def Turn.quiet : Turn V :=
  .work ⟨true, true, false⟩
    { tag := fun _ tag => tag, initCount := 0, initCountEmitted := false, hasError := false
      needsSessionRecoveredSignal := false, creates := false, stops := false }

/-! ## One caller -/

/-- The object as one caller leaves it. -/
def Machine.shared (m : Machine V) : Shared V :=
  { comms := m.comms, pushing := m.pushing.toList, work := m.work }

/-- The turn a step of one caller is. A caller that has yet to push takes none. -/
def Machine.turns (m : Machine V) : Label V → List (Turn V)
  | .call c => if m.pushing.isSome then [] else [.call c]
  | .push => [.push 0]
  | .work handed polled => [.work handed polled]

theorem Machine.workStep_pushing (m : Machine V) (handed : Handed) (polled : Polled) :
    (m.workStep handed polled).pushing = m.pushing := by
  unfold Machine.workStep
  cases m.work with
  | pop =>
    simp only
    split <;> rfl
  | flush name first =>
    simp only
    split <;> rfl
  | handing name first w => rfl
  | cleanup name => rfl
  | process name => rfl
  | push name => rfl

/-- What the work thread does, it does whatever the callers have yet to push. -/
theorem Machine.workStep_shared (m : Machine V) (handed : Handed) (polled : Polled) :
    (m.workStep handed polled).comms = (m.shared.worker.workStep handed polled).comms ∧
      (m.workStep handed polled).work = (m.shared.worker.workStep handed polled).work := by
  obtain ⟨comms, pushing, work⟩ := m
  unfold Machine.workStep Machine.shared Shared.worker
  cases work with
  | pop =>
    simp only
    cases comms.tagGroupQueue with
    | nil => exact ⟨rfl, rfl⟩
    | cons name rest => exact ⟨rfl, rfl⟩
  | flush name first =>
    simp only
    cases comms.writeQueue with
    | nil => exact ⟨rfl, rfl⟩
    | cons w rest => exact ⟨rfl, rfl⟩
  | handing name first w => exact ⟨rfl, rfl⟩
  | cleanup name => exact ⟨rfl, rfl⟩
  | process name => exact ⟨rfl, rfl⟩
  | push name => exact ⟨rfl, rfl⟩

theorem Machine.step_shared (m : Machine V) (l : Label V) :
    (m.step l).shared = run Shared.step m.shared (m.turns l) := by
  cases l with
  | call c =>
    unfold Machine.step Machine.turns
    cases hpushing : m.pushing with
    | none =>
      show _ = Shared.step m.shared (.call c)
      unfold Machine.shared Shared.step
      rw [hpushing]
      rfl
    | some name => rfl
  | push =>
    show _ = Shared.step m.shared (.push 0)
    unfold Machine.step Machine.shared Shared.step
    cases hpushing : m.pushing with
    | none => simp only [hpushing, Option.toList_none, List.getElem?_nil]
    | some name => simp only [Option.toList_some, List.getElem?_cons_zero, Option.toList_none,
        List.eraseIdx_zero, List.tail_cons]
  | work handed polled =>
    show (m.workStep handed polled).shared = Shared.step m.shared (.work handed polled)
    obtain ⟨hcomms, hwork⟩ := m.workStep_shared handed polled
    simp only [Shared.step, ← hcomms, ← hwork]
    simp only [Machine.shared, m.workStep_pushing handed polled]

/-- A run of one caller is a run of any number of them. -/
theorem Machine.run_shared (m : Machine V) (ops : List (Label V)) :
    ∃ turns, run Shared.step m.shared turns = (run Machine.step m ops).shared :=
  exists_run Machine.step Shared.step Machine.shared (J := fun _ => True) (fun _ _ h => h)
    (fun m _ l _ => ⟨m.turns l, (m.step_shared l).symm⟩) trivial

end OipComms.Comms
