import OipComms.Backend.Conserved
import OipComms.Comms.BlockingQueue

/-!
# From the constructor to the destructor

The loops of the two threads with the flags they test, and the destructor, statement by statement,
over the machine of `System.lean`. No method is called from the destructor's first statement on; the
calls under way then go on to their push, and messages may still come in.

The destructor returns: it waits for each thread only as long as the thread has steps to make, and
the work thread is never left waiting in `pop` (`destructor_returns`). Once its flag is down the work
thread makes at most one more poll, and hands over all the writes that are left or none
(`last_round`). What the groups got from the libraries or made with `new` is given back when the
destructor has returned (`destroyed_returned`).
-/

namespace OipComms.Backend

open Comms (Method OIPBlockingQueue Work WriteRequest)
open Ledger Run Sweep

variable {V : Type}

/-- Where `process_work` stands: at the test of its loop, in the body, at the test of an empty name,
or past the loop. -/
inductive Loop
  | head
  | body
  | woken
  | ended
  deriving DecidableEq, Repr

/-- Where `watchdog` stands. -/
inductive Watchdog
  | head
  | body
  | delay
  | ended
  deriving DecidableEq, Repr

/-- What the destructor has done last. -/
inductive Closing
  | alive
  | watchdogStopped
  | workStopped
  | shut
  | workFinished
  | finished
  | cleaned
  deriving DecidableEq, Repr

/-- The object, its flags, and where its threads and its destructor stand. `stop` is the flag of the
queue of group names. -/
structure Lifetime (V : Type) where
  machine : Machine V := {}
  workThreadRunning : Bool := true
  watchdogThreadRunning : Bool := true
  stop : Bool := false
  sceneSignalsSet : Bool := false
  loop : Loop := .head
  watchdog : Watchdog := .head
  closing : Closing := .alive

/-- A step of a caller or a message, of the work thread, of the watchdog with the main scene there or
not, or of the destructor. -/
inductive Step (V : Type)
  | use (l : Label V)
  | work (write : WriteEnv) (poll : Env V)
  | watchdog (mainScene : Bool)
  | destroy

/-- The queue of group names. -/
def Lifetime.nameQueue (x : Lifetime V) : OIPBlockingQueue :=
  { queue := x.machine.comms.tagGroupQueue, stop := x.stop }

/-- The work thread is about to pop. -/
def atPop : Work V → Bool
  | .pop => true
  | _ => false

section
variable [Rtde.GodotVariant V]

/-- The pop of `process_work`. -/
def Lifetime.popName (x : Lifetime V) : Lifetime V :=
  if Method.pop.op.ready x.nameQueue then
    let (q, answer) := Method.pop.op.whole x.nameQueue
    { x with
      machine := { x.machine with
        comms := { x.machine.comms with tagGroupQueue := q.queue }
        work := .flush answer.message (answer.message = Comms.cleanupToken) }
      loop := if answer.message = [] then .woken else .body }
  else x

/-- A step of `process_work`. -/
def Lifetime.workStep (x : Lifetime V) (write : WriteEnv) (poll : Env V) : Lifetime V :=
  match x.loop with
  | .head | .woken => { x with loop := if x.workThreadRunning then .body else .ended }
  | .ended => x
  | .body =>
    match x.machine.work with
    | .pop => x.popName
    | _ =>
      let machine := x.machine.workStep write poll
      { x with machine := machine, loop := if atPop machine.work then .head else .body }

/-- A step of `watchdog`. -/
def Lifetime.watchdogStep (x : Lifetime V) (mainScene : Bool) : Lifetime V :=
  match x.watchdog with
  | .head => { x with watchdog := if x.watchdogThreadRunning then .body else .ended }
  | .body => { x with watchdog := .delay, sceneSignalsSet := x.sceneSignalsSet || mainScene }
  | .delay => { x with watchdog := .head }
  | .ended => x

/-- A statement of the destructor; `wait_to_finish` waits for the thread. -/
def Lifetime.destroyStep (x : Lifetime V) : Lifetime V :=
  match x.closing with
  | .alive => { x with watchdogThreadRunning := false, closing := .watchdogStopped }
  | .watchdogStopped => { x with workThreadRunning := false, closing := .workStopped }
  | .workStopped =>
    { x with stop := (Method.shutdown.op.whole x.nameQueue).1.stop, closing := .shut }
  | .shut => if x.loop = .ended then { x with closing := .workFinished } else x
  | .workFinished => if x.watchdog = .ended then { x with closing := .finished } else x
  | .finished =>
    { x with
      machine := { x.machine with comms := x.machine.comms.cleanupTagGroups }
      closing := .cleaned }
  | .cleaned => x

/-- A method may be called while the object is alive, and `process` once its signal is connected. -/
def Lifetime.useStep (x : Lifetime V) (l : Label V) : Lifetime V :=
  match l with
  | .call (.process _) =>
    if x.closing = .alive ∧ x.sceneSignalsSet then { x with machine := x.machine.step l } else x
  | .call _ => if x.closing = .alive then { x with machine := x.machine.step l } else x
  | .push _ | .message _ _ _ => { x with machine := x.machine.step l }
  | .work _ _ => x

/-- A step of any of them, while the object is there. -/
def Lifetime.step (x : Lifetime V) (l : Step V) : Lifetime V :=
  if x.closing = .cleaned then x
  else
    match l with
    | .use l => x.useStep l
    | .work write poll => x.workStep write poll
    | .watchdog mainScene => x.watchdogStep mainScene
    | .destroy => x.destroyStep

end

section
variable [Rtde.GodotVariant V]

/-- The object after a list of steps. -/
def lifetime (ls : List (Step V)) : Lifetime V := run Lifetime.step {} ls

end

/-- A group with a tag is polled once, and its handle created. -/
def polledOnce : List (Step Bool) :=
  [.watchdog true, .watchdog true] ++
    (started "g".toList .s7 "MB0".toList).map .use ++
      [.use (.call (.process 100000)), .work {} {}, .work {} {}, .work {} {}, .work {} {}]

/-! ## What a step changes -/

/-- A method is called that may be. -/
def Lifetime.takes (x : Lifetime V) : Label V → Bool
  | .call (.process _) => x.closing = .alive && x.sceneSignalsSet
  | .call _ => x.closing = .alive
  | .push _ | .message _ _ _ => true
  | .work _ _ => false

/-- What a step does to the groups. -/
def Lifetime.change (x : Lifetime V) (l : Step V) : Change V :=
  if x.closing = .cleaned then .nothing
  else
    match l with
    | .use l => if x.takes l then x.machine.change l else .nothing
    | .work write poll => if x.loop = .body then x.machine.workChange write poll else .nothing
    | .watchdog _ => .nothing
    | .destroy => if x.closing = .finished then .all .cleanup else .nothing

theorem State.Same.refl (s : State V) : s.Same s := ⟨rfl, rfl, rfl⟩

section
variable [Rtde.GodotVariant V]

/-- A method that may be called is a step of the machine. -/
theorem useStep_eq (x : Lifetime V) (l : Label V) :
    x.useStep l = if x.takes l then { x with machine := x.machine.step l } else x := by
  cases l with
  | call c =>
    cases c with
    | process ticks => simp [Lifetime.useStep, Lifetime.takes]
    | registerTagGroup name pollingInterval protocol gateway path cpu
    | registerTag name tagName ty | setSoftPlcProgram name source
    | setSoftPlcWatchEnabled name enabled | setEnableComms value | setSimRunning value | write w
    | read name tagName ty | clearTagGroups => simp [Lifetime.useStep, Lifetime.takes]
  | push i | message name topic payload | work write poll => rfl

omit [Rtde.GodotVariant V] in
/-- The pop leaves the groups, and waits only while there is no name and the queue is not shut. -/
theorem popName_cases (x : Lifetime V) :
    (x.machine.comms.tagGroupQueue = [] ∧ x.stop = false ∧ x.popName = x) ∨
      ∃ name rest, (x.machine.comms.tagGroupQueue = name :: rest ∨
          x.machine.comms.tagGroupQueue = [] ∧ x.stop = true ∧ name = [] ∧ rest = []) ∧
        x.popName = { x with
          machine := { x.machine with
            comms := { x.machine.comms with tagGroupQueue := rest }
            work := .flush name (name = Comms.cleanupToken) }
          loop := if name = [] then .woken else .body } := by
  unfold Lifetime.popName
  cases hready : Method.pop.op.ready x.nameQueue with
  | false =>
    refine .inl ⟨?_, ?_, by rw [if_neg Bool.false_ne_true]⟩
    · cases hqueue : x.machine.comms.tagGroupQueue with
      | nil => rfl
      | cons name rest =>
        simp [Lifetime.nameQueue, hqueue, Method.op, OIPBlockingQueue.pop, Monitor.Op.ready] at hready
    · cases hstop : x.stop with
      | false => rfl
      | true =>
        simp [Lifetime.nameQueue, hstop, Method.op, OIPBlockingQueue.pop, Monitor.Op.ready] at hready
  | true =>
    rw [if_pos rfl]
    obtain ⟨name, rest, hqueue⟩ | hqueue := Comms.pop_ready hready
    · have heq : x.nameQueue = ⟨name :: rest, x.stop⟩ := by rw [← hqueue]; rfl
      rw [heq, Comms.pop_whole_cons]
      exact .inr ⟨name, rest, .inl hqueue, rfl⟩
    · rw [hqueue, Comms.pop_whole_nil]
      exact .inr ⟨[], [], .inr ⟨congrArg OIPBlockingQueue.queue hqueue,
        congrArg OIPBlockingQueue.stop hqueue, rfl, rfl⟩, rfl⟩

/-- A step makes its change. -/
theorem lifetime_same (x : Lifetime V) (l : Step V) :
    (x.step l).machine.comms.Same (x.machine.comms.change (x.change l)) := by
  unfold Lifetime.step Lifetime.change
  split
  · exact .refl _
  cases l with
  | use l =>
    simp only [useStep_eq]
    split
    · exact step_same x.machine l
    · exact .refl _
  | work write poll =>
    simp only [Lifetime.workStep]
    cases hloop : x.loop with
    | head | woken | ended => exact .refl _
    | body =>
      simp only [if_true]
      split
      · rename_i hwork
        rw [Machine.workChange, hwork]
        obtain ⟨-, -, hsame⟩ | ⟨name, rest, -, hpop⟩ := popName_cases x
        · rw [hsame]
          exact .refl _
        · rw [hpop]
          exact ⟨rfl, rfl, rfl⟩
      · exact workStep_same x.machine write poll
  | watchdog mainScene =>
    simp only [Lifetime.watchdogStep]
    split <;> exact .refl _
  | destroy =>
    simp only [Lifetime.destroyStep]
    cases x.closing with
    | shut | workFinished =>
      simp only
      split <;> exact .refl _
    | alive | watchdogStopped | workStopped | cleaned | finished => exact .refl _

/-! ## The flags -/

/-- How far the destructor is. -/
def Closing.rank : Closing → Nat
  | .alive => 0
  | .watchdogStopped => 1
  | .workStopped => 2
  | .shut => 3
  | .workFinished => 4
  | .finished => 5
  | .cleaned => 6

/-- The flags are what the destructor has made of them, and it has waited for the threads. -/
structure Lifetime.Flagged (x : Lifetime V) : Prop where
  watchdog : x.watchdogThreadRunning = decide (x.closing.rank < 1)
  work : x.workThreadRunning = decide (x.closing.rank < 2)
  stop : x.stop = decide (3 ≤ x.closing.rank)
  workFinished : 4 ≤ x.closing.rank → x.loop = .ended
  finished : 5 ≤ x.closing.rank → x.watchdog = .ended

/-- What a step leaves of the flags and the destructor, unless it is one of the destructor's. -/
structure Lifetime.SameFlags (x x' : Lifetime V) : Prop where
  closing : x'.closing = x.closing
  watchdogThreadRunning : x'.watchdogThreadRunning = x.watchdogThreadRunning
  workThreadRunning : x'.workThreadRunning = x.workThreadRunning
  stop : x'.stop = x.stop
  loop : x.loop = .ended → x'.loop = .ended
  watchdog : x.watchdog = .ended → x'.watchdog = .ended

omit [Rtde.GodotVariant V] in
/-- What leaves the flags and the destructor keeps them right. -/
theorem Lifetime.Flagged.of_same {x x' : Lifetime V} (h : x.Flagged) (hsame : x.SameFlags x') :
    x'.Flagged where
  watchdog := by rw [hsame.watchdogThreadRunning, hsame.closing, h.watchdog]
  work := by rw [hsame.workThreadRunning, hsame.closing, h.work]
  stop := by rw [hsame.stop, hsame.closing, h.stop]
  workFinished hrank := hsame.loop (h.workFinished (hsame.closing ▸ hrank))
  finished hrank := hsame.watchdog (h.finished (hsame.closing ▸ hrank))

/-- A method leaves the flags. -/
theorem useStep_flags (x : Lifetime V) (l : Label V) : x.SameFlags (x.useStep l) := by
  rw [useStep_eq]
  split
  · exact ⟨rfl, rfl, rfl, rfl, id, id⟩
  · exact ⟨rfl, rfl, rfl, rfl, id, id⟩

theorem workStep_flags (x : Lifetime V) (write : WriteEnv) (poll : Env V) :
    x.SameFlags (x.workStep write poll) := by
  unfold Lifetime.workStep
  cases hloop : x.loop with
  | head | woken =>
    exact ⟨rfl, rfl, rfl, rfl, fun h => (by rw [hloop] at h; cases h), id⟩
  | ended => exact ⟨rfl, rfl, rfl, rfl, id, id⟩
  | body =>
    simp only
    split
    · obtain ⟨-, -, hsame⟩ | ⟨name, rest, -, hpop⟩ := popName_cases x
      · rw [hsame]
        exact ⟨rfl, rfl, rfl, rfl, id, id⟩
      · rw [hpop]
        exact ⟨rfl, rfl, rfl, rfl, fun h => (by rw [hloop] at h; cases h), id⟩
    · exact ⟨rfl, rfl, rfl, rfl, fun h => (by rw [hloop] at h; cases h), id⟩

omit [Rtde.GodotVariant V] in
theorem watchdogStep_flags (x : Lifetime V) (mainScene : Bool) :
    x.SameFlags (x.watchdogStep mainScene) := by
  unfold Lifetime.watchdogStep
  cases hwatchdog : x.watchdog with
  | head | body | delay =>
    exact ⟨rfl, rfl, rfl, rfl, id, fun h => by rw [hwatchdog] at h; cases h⟩
  | ended => exact ⟨rfl, rfl, rfl, rfl, id, id⟩

/-- A statement of the destructor keeps the flags right. -/
theorem destroyStep_flagged {x : Lifetime V} (h : x.Flagged) : x.destroyStep.Flagged := by
  obtain ⟨hwatchdog, hwork, hstop, hworkFinished, hfinished⟩ := h
  have hstopped : (Method.shutdown.op.whole x.nameQueue).1.stop = true := rfl
  unfold Lifetime.destroyStep
  cases hclosing : x.closing with
  | shut | workFinished =>
    simp only
    split
    · constructor <;> simp_all [Closing.rank]
    · constructor <;> assumption
  | alive | watchdogStopped | workStopped | finished =>
    constructor <;> simp_all [Closing.rank]
  | cleaned => constructor <;> assumption

/-- Every step keeps the flags right. -/
theorem flagged_step (x : Lifetime V) (l : Step V) (h : x.Flagged) : (x.step l).Flagged := by
  unfold Lifetime.step
  split
  · exact h
  cases l with
  | use l => exact h.of_same (useStep_flags x l)
  | work write poll => exact h.of_same (workStep_flags x write poll)
  | watchdog mainScene => exact h.of_same (watchdogStep_flags x mainScene)
  | destroy => exact destroyStep_flagged h

omit [Rtde.GodotVariant V] in
/-- The flags of the constructor are right. -/
theorem flagged_start : ({} : Lifetime V).Flagged :=
  ⟨rfl, rfl, rfl, fun hrank => (by simp [Closing.rank] at hrank),
    fun hrank => (by simp [Closing.rank] at hrank)⟩

/-! ## The destructor returns -/

/-- The steps the work thread may make to the end of the body, and one more, with `n` writes in the
queue. -/
def bodyEffort (n : Nat) : Work V → Nat
  | .pop => 9 + 2 * n
  | .flush _ first => (if first then 6 else 4) + 2 * n
  | .handing _ first _ => (if first then 7 else 5) + 2 * n
  | .cleanup _ => 5 + 2 * n
  | .process _ => 3
  | .push _ => 2

/-- The steps the work thread may make when it has to end. -/
def Lifetime.workEffort (x : Lifetime V) : Nat :=
  match x.loop with
  | .ended => 0
  | .head | .woken => 1
  | .body => bodyEffort x.machine.comms.writeQueue.length x.machine.work

def Lifetime.watchdogEffort (x : Lifetime V) : Nat :=
  match x.watchdog with
  | .ended => 0
  | .head => 1
  | .delay => 2
  | .body => 3

omit [Rtde.GodotVariant V] in
/-- From any place the body has this many steps at most. -/
theorem bodyEffort_le (n : Nat) (work : Work V) : bodyEffort n work ≤ 9 + 2 * n := by
  cases work with
  | flush name first | handing name first w =>
    simp only [bodyEffort]
    split <;> omega
  | pop | cleanup name | process name | push name =>
    simp only [bodyEffort]
    omega

omit [Rtde.GodotVariant V] in
/-- The work thread has this many steps at most. -/
theorem workEffort_le (x : Lifetime V) :
    x.workEffort ≤ 9 + 2 * x.machine.comms.writeQueue.length := by
  unfold Lifetime.workEffort
  cases x.loop with
  | body => exact bodyEffort_le _ _
  | ended | head | woken => simp only; omega

omit [Rtde.GodotVariant V] in
/-- With no steps left the work thread has ended. -/
theorem workEffort_eq_zero {x : Lifetime V} (h : x.workEffort = 0) : x.loop = .ended := by
  unfold Lifetime.workEffort at h
  cases hloop : x.loop with
  | ended => rfl
  | head | woken => rw [hloop] at h; cases h
  | body =>
    rw [hloop] at h
    cases hwork : x.machine.work with
    | flush name first | handing name first w =>
      simp only [hwork, bodyEffort] at h
      split at h <;> omega
    | pop | cleanup name | process name | push name =>
      simp only [hwork, bodyEffort] at h
      omega

/-- What happens to the groups leaves the queue of writes. -/
theorem change_writeQueue (s : State V) (d : Change V) : (s.change d).writeQueue = s.writeQueue := by
  cases d <;> rfl

/-- A step of the body takes it on. -/
theorem body_effort (x : Lifetime V) (hloop : x.loop = .body) (hpop : x.machine.work ≠ .pop)
    (write : WriteEnv) (poll : Env V) :
    (x.workStep write poll).workEffort < x.workEffort := by
  obtain ⟨⟨comms, pushing, work⟩, workThreadRunning, watchdogThreadRunning, stop, signals, loop,
    watchdog, closing⟩ := x
  simp only at hloop hpop
  subst hloop
  simp only [Lifetime.workStep, Lifetime.workEffort]
  cases work with
  | pop => exact absurd rfl hpop
  | flush name first =>
    cases hqueue : comms.writeQueue with
    | nil => cases first <;> simp [Machine.workStep, hqueue, atPop, bodyEffort]
    | cons w rest =>
      simp only [Machine.workStep, hqueue, atPop, bodyEffort, List.length_cons]
      cases first <;> simp <;> omega
  | handing name first w =>
    have hqueue : (comms.processWrite write w).writeQueue = comms.writeQueue :=
      change_writeQueue comms _
    simp only [Machine.workStep, atPop, bodyEffort, hqueue]
    cases first <;> simp
  | cleanup name =>
    have hqueue : comms.cleanupTagGroups.writeQueue = comms.writeQueue := change_writeQueue comms _
    simp [Machine.workStep, atPop, bodyEffort, hqueue]
  | process name =>
    rcases Option.eq_none_or_eq_some (comms.processTagGroup name poll).1 with hnone | ⟨name', hsome⟩
    · simp [Machine.workStep, hnone, atPop, bodyEffort]
    · simp [Machine.workStep, hsome, atPop, bodyEffort]
  | push name => simp [Machine.workStep, atPop, bodyEffort]

/-- Once the flags are down and the queue is shut, the work thread has always a step to make until it
ends. -/
theorem work_effort {x : Lifetime V} (hrunning : x.workThreadRunning = false)
    (hstop : x.stop = true) (write : WriteEnv) (poll : Env V) (h : x.workEffort ≠ 0) :
    (x.workStep write poll).workEffort < x.workEffort := by
  cases hloop : x.loop with
  | ended =>
    rw [Lifetime.workEffort, hloop] at h
    exact absurd rfl h
  | head | woken => simp [Lifetime.workStep, Lifetime.workEffort, hloop, hrunning]
  | body =>
    by_cases hpop : x.machine.work = .pop
    · have hstep : x.workStep write poll = x.popName := by simp only [Lifetime.workStep, hloop, hpop]
      obtain ⟨-, hopen, -⟩ | ⟨name, rest, -, hname⟩ := popName_cases x
      · rw [hstop] at hopen
        cases hopen
      · rw [hstep, hname]
        by_cases hempty : name = []
        · simp only [Lifetime.workEffort, hloop, hpop, bodyEffort, hempty, if_true]
          omega
        · simp only [Lifetime.workEffort, hloop, hpop, bodyEffort, hempty, if_false]
          split <;> omega
    · exact body_effort x hloop hpop write poll

/-- No method is called once the destructor has begun. -/
theorem use_closing {x : Lifetime V} (hclosing : x.closing ≠ .alive) (l : Label V) :
    x.useStep l = x ∨ (x.useStep l = { x with machine := x.machine.step l } ∧
      (x.machine.step l).comms.writeQueue = x.machine.comms.writeQueue ∧
        (x.machine.step l).work = x.machine.work) := by
  rw [useStep_eq]
  cases l with
  | call c =>
    refine .inl (if_neg ?_)
    cases c <;> simp [Lifetime.takes, hclosing]
  | push i =>
    refine .inr ⟨rfl, ?_⟩
    simp only [Machine.step]
    split
    · exact ⟨rfl, rfl⟩
    · exact ⟨rfl, rfl⟩
  | work write poll => exact .inl rfl
  | message name topic payload =>
    refine .inr ⟨rfl, ?_, rfl⟩
    show (x.machine.comms.mqttMessageArrived name topic payload).writeQueue = _
    unfold State.mqttMessageArrived
    split
    · exact change_writeQueue _ _
    · rfl

/-- A message or the push of a call under way costs the work thread nothing. -/
theorem use_effort {x : Lifetime V} (hclosing : x.closing ≠ .alive) (l : Label V) :
    (x.useStep l).workEffort = x.workEffort := by
  obtain hsame | ⟨hstep, hqueue, hwork⟩ := use_closing hclosing l
  · rw [hsame]
  · rw [hstep]
    simp only [Lifetime.workEffort, hqueue, hwork]

/-- A statement of the destructor costs neither thread anything. -/
theorem destroy_effort (x : Lifetime V) :
    x.destroyStep.workEffort = x.workEffort ∧ x.destroyStep.watchdogEffort = x.watchdogEffort := by
  unfold Lifetime.destroyStep
  cases x.closing with
  | shut | workFinished =>
    simp only
    split
    · exact ⟨rfl, rfl⟩
    · exact ⟨rfl, rfl⟩
  | finished =>
    have hqueue : x.machine.comms.cleanupTagGroups.writeQueue = x.machine.comms.writeQueue :=
      change_writeQueue _ _
    exact ⟨by simp only [Lifetime.workEffort, hqueue], rfl⟩
  | alive | watchdogStopped | workStopped | cleaned => exact ⟨rfl, rfl⟩

/-- A statement of the destructor takes it on or waits. -/
theorem destroy_rank (x : Lifetime V) : x.closing.rank ≤ x.destroyStep.closing.rank := by
  unfold Lifetime.destroyStep
  cases hclosing : x.closing with
  | shut | workFinished =>
    simp only
    split
    · simp only [Closing.rank]
      omega
    · rw [hclosing]
  | alive | watchdogStopped | workStopped | finished =>
    simp only [Closing.rank]
    omega
  | cleaned =>
    simp only
    rw [hclosing]

/-- The destructor does not go back. -/
theorem rank_step (x : Lifetime V) (l : Step V) : x.closing.rank ≤ (x.step l).closing.rank := by
  unfold Lifetime.step
  split
  · exact Nat.le_refl _
  cases l with
  | use l => exact Nat.le_of_eq (by rw [(useStep_flags x l).closing])
  | work write poll => exact Nat.le_of_eq (by rw [(workStep_flags x write poll).closing])
  | watchdog mainScene => exact Nat.le_of_eq (by rw [(watchdogStep_flags x mainScene).closing])
  | destroy => exact destroy_rank x

/-- The flags are right, and the destructor is at least so far. -/
def Lifetime.Past (n : Nat) (x : Lifetime V) : Prop := x.Flagged ∧ n ≤ x.closing.rank

/-- Every step keeps the flags right and the destructor as far as it was. -/
theorem past_step (n : Nat) (x : Lifetime V) (l : Step V) (h : x.Past n) : (x.step l).Past n :=
  ⟨flagged_step x l h.1, h.2.trans (rank_step x l)⟩

def Step.isWork : Step V → Bool
  | .work _ _ => true
  | _ => false

def Step.isWatchdog : Step V → Bool
  | .watchdog _ => true
  | _ => false

omit [Rtde.GodotVariant V] in
/-- A destructor that has begun is seen to have. -/
theorem Lifetime.Past.not_alive {x : Lifetime V} {n : Nat} (h : x.Past (n + 1)) :
    x.closing ≠ .alive := by
  intro halive
  have hrank := h.2
  rw [halive] at hrank
  exact absurd hrank (Nat.not_succ_le_zero n)

/-- No step gives the work thread more to do. -/
theorem workEffort_step_le (x : Lifetime V) (l : Step V) (h : x.Past 3) :
    (x.step l).workEffort ≤ x.workEffort := by
  unfold Lifetime.step
  split
  · exact Nat.le_refl _
  cases l with
  | use l => exact Nat.le_of_eq (use_effort h.not_alive l)
  | work write poll =>
    by_cases hzero : x.workEffort = 0
    · have hstay : x.workStep write poll = x := by
        simp only [Lifetime.workStep, workEffort_eq_zero hzero]
      exact Nat.le_of_eq (congrArg Lifetime.workEffort hstay)
    · refine Nat.le_of_lt (work_effort ?_ ?_ write poll hzero)
      · rw [h.1.work]
        exact decide_eq_false (by have := h.2; omega)
      · rw [h.1.stop]
        exact decide_eq_true h.2
  | watchdog mainScene =>
    refine Nat.le_of_eq ?_
    simp only [Lifetime.watchdogStep]
    cases x.watchdog <;> rfl
  | destroy => exact Nat.le_of_eq (destroy_effort x).1

/-- A step of the work thread leaves it less to do. -/
theorem workEffort_step_lt (x : Lifetime V) (l : Step V) (h : x.Past 3) (hl : l.isWork = true)
    (hzero : x.workEffort ≠ 0) : (x.step l).workEffort < x.workEffort := by
  have hthere : x.closing ≠ .cleaned := by
    intro hcleaned
    have hended := h.1.workFinished (by rw [hcleaned]; decide)
    rw [Lifetime.workEffort, hended] at hzero
    exact hzero rfl
  cases l with
  | work write poll =>
    rw [Lifetime.step, if_neg hthere]
    refine work_effort ?_ ?_ write poll hzero
    · rw [h.1.work]
      exact decide_eq_false (by have := h.2; omega)
    · rw [h.1.stop]
      exact decide_eq_true h.2
  | use l | watchdog mainScene | destroy => cases hl

omit [Rtde.GodotVariant V] in
/-- A step of the watchdog leaves it less to do, once its flag is down. -/
theorem watchdogStep_effort {x : Lifetime V} (hrunning : x.watchdogThreadRunning = false)
    (mainScene : Bool) (hzero : x.watchdogEffort ≠ 0) :
    (x.watchdogStep mainScene).watchdogEffort < x.watchdogEffort := by
  unfold Lifetime.watchdogStep Lifetime.watchdogEffort
  cases hwatchdog : x.watchdog with
  | ended =>
    rw [Lifetime.watchdogEffort, hwatchdog] at hzero
    exact absurd rfl hzero
  | head => simp [hrunning]
  | body | delay => simp

omit [Rtde.GodotVariant V] in
/-- With no steps left the watchdog has ended. -/
theorem watchdogEffort_eq_zero {x : Lifetime V} (h : x.watchdogEffort = 0) :
    x.watchdog = .ended := by
  unfold Lifetime.watchdogEffort at h
  cases hwatchdog : x.watchdog with
  | ended => rfl
  | head | body | delay => rw [hwatchdog] at h; cases h

/-- No step gives the watchdog more to do. -/
theorem watchdogEffort_step_le (x : Lifetime V) (l : Step V) (h : x.Past 3) :
    (x.step l).watchdogEffort ≤ x.watchdogEffort := by
  unfold Lifetime.step
  split
  · exact Nat.le_refl _
  cases l with
  | use l =>
    refine Nat.le_of_eq ?_
    show (x.useStep l).watchdogEffort = x.watchdogEffort
    obtain hsame | ⟨hstep, -⟩ := use_closing h.not_alive l
    · rw [hsame]
    · rw [hstep]
      rfl
  | work write poll =>
    refine Nat.le_of_eq ?_
    simp only [Lifetime.workStep]
    cases x.loop with
    | head | woken | ended => rfl
    | body =>
      simp only
      split
      · obtain ⟨-, -, hsame⟩ | ⟨name, rest, -, hpop⟩ := popName_cases x
        · rw [hsame]
        · rw [hpop]
          rfl
      · rfl
  | watchdog mainScene =>
    by_cases hzero : x.watchdogEffort = 0
    · have hstay : x.watchdogStep mainScene = x := by
        simp only [Lifetime.watchdogStep, watchdogEffort_eq_zero hzero]
      exact Nat.le_of_eq (congrArg Lifetime.watchdogEffort hstay)
    · refine Nat.le_of_lt (watchdogStep_effort ?_ mainScene hzero)
      rw [h.1.watchdog]
      exact decide_eq_false (by have := h.2; omega)
  | destroy => exact Nat.le_of_eq (destroy_effort x).2

/-- A step of the watchdog leaves it less to do. -/
theorem watchdogEffort_step_lt (x : Lifetime V) (l : Step V) (h : x.Past 3)
    (hl : l.isWatchdog = true) (hzero : x.watchdogEffort ≠ 0) :
    (x.step l).watchdogEffort < x.watchdogEffort := by
  have hthere : x.closing ≠ .cleaned := by
    intro hcleaned
    have hended := h.1.finished (by rw [hcleaned]; decide)
    rw [Lifetime.watchdogEffort, hended] at hzero
    exact hzero rfl
  cases l with
  | watchdog mainScene =>
    rw [Lifetime.step, if_neg hthere]
    refine watchdogStep_effort ?_ mainScene hzero
    rw [h.1.watchdog]
    exact decide_eq_false (by have := h.2; omega)
  | use l | work write poll | destroy => cases hl

/-- With both threads ended the destructor has three statements left. -/
theorem destroy_thrice {x : Lifetime V} (h : x.Past 3) (hloop : x.loop = .ended)
    (hwatchdog : x.watchdog = .ended) :
    (run Lifetime.step x [.destroy, .destroy, .destroy]).closing = .cleaned := by
  obtain ⟨machine, workThreadRunning, watchdogThreadRunning, stop, signals, loop, watchdog,
    closing⟩ := x
  simp only at hloop hwatchdog
  subst hloop hwatchdog
  have hrank := h.2
  cases closing with
  | alive | watchdogStopped | workStopped => simp [Closing.rank] at hrank
  | shut | workFinished | finished | cleaned =>
    simp [run, Lifetime.step, Lifetime.destroyStep]

/-- From when `shutdown` has been called the destructor returns, however the steps interleave: the work
thread ends after at most nine steps and two for each write in the queue, the watchdog after
three. -/
theorem destructor_returns (ls ls' : List (Step V)) (hshut : (lifetime ls).closing = .shut)
    (hwork : 9 + 2 * (lifetime ls).machine.comms.writeQueue.length ≤ ls'.countP Step.isWork)
    (hwatchdog : 3 ≤ ls'.countP Step.isWatchdog) :
    (lifetime (ls ++ ls' ++ [.destroy, .destroy, .destroy])).closing = .cleaned := by
  have hflagged : (lifetime ls).Flagged :=
    run_of_invariant Lifetime.step flagged_step (flagged_start (V := V)) ls
  rw [lifetime, run_append, run_append]
  change (run Lifetime.step (run Lifetime.step (lifetime ls) ls') _).closing = _
  generalize lifetime ls = x at *
  have hpast : x.Past 3 := ⟨hflagged, by rw [hshut]; decide⟩
  have hdone := run_measure Lifetime.step Lifetime.workEffort Step.isWork (past_step 3)
    workEffort_step_le workEffort_step_lt hpast ls'
  have hdone' := run_measure Lifetime.step Lifetime.watchdogEffort Step.isWatchdog (past_step 3)
    watchdogEffort_step_le watchdogEffort_step_lt hpast ls'
  have hle := workEffort_le x
  have hle' : x.watchdogEffort ≤ 3 := by
    unfold Lifetime.watchdogEffort
    cases x.watchdog <;> decide
  refine destroy_thrice (run_of_invariant Lifetime.step (past_step 3) hpast ls') ?_ ?_
  · exact workEffort_eq_zero (by omega)
  · exact watchdogEffort_eq_zero (by omega)

omit [Rtde.GodotVariant V] in
/-- The work thread is in `pop`, and the destructor comes through. -/
theorem destructor_returns_popping :
    (lifetime (polledOnce ++ [.work {} {}, .destroy, .destroy, .destroy] ++
      (List.replicate 9 (.work {} {}) ++ List.replicate 3 (.watchdog true)) ++
        [.destroy, .destroy, .destroy])).closing = .cleaned :=
  destructor_returns _ _ (by decide) (by decide) (by decide)

/-! ## The last round -/

end

/-- The writes handed over since, and the polls begun. -/
structure Round (V : Type) where
  handed : List (WriteRequest V) := []
  polls : Nat := 0

/-- What a step hands over, and whether it polls. -/
def noteRound (x : Lifetime V) : Step V → Round V → Round V
  | .work _ _, r =>
    if x.loop = .body then
      match x.machine.work with
      | .handing _ _ w => { r with handed := r.handed ++ [w] }
      | .process name =>
        if x.machine.comms.simRunning && x.machine.comms.tagGroupExists name then
          { r with polls := r.polls + 1 }
        else r
      | _ => r
    else r
  | _, r => r

/-- The writes taken that are still to be handed over. -/
def Lifetime.pending (x : Lifetime V) : List (WriteRequest V) :=
  x.machine.work.inHand ++ x.machine.comms.writeQueue

/-- The work thread is in `flush_all_writes`. -/
def flushing : Work V → Bool
  | .flush _ _ | .handing _ _ _ => true
  | _ => false

/-- The polls the work thread may yet begin. -/
def Lifetime.pollsLeft (x : Lifetime V) : Nat :=
  match x.loop, x.machine.work with
  | .body, .push _ => 0
  | .body, _ => 1
  | _, _ => 0

/-- What holds once the flag of the work thread is down: the writes that were pending are handed over
in their order, all of them once the first has been, and one poll at most is made. -/
structure LastRound (taken : List (WriteRequest V)) (y : Lifetime V × Round V) : Prop where
  past : y.1.Past 2
  account : y.2.handed ++ y.1.pending = taken
  whole : y.2.handed = [] ∨ y.1.pending = [] ∨ (y.1.loop = .body ∧ flushing y.1.machine.work = true)
  polls : y.2.polls + y.1.pollsLeft ≤ 1

section
variable [Rtde.GodotVariant V] {taken : List (WriteRequest V)} {x : Lifetime V} {r : Round V}

omit [Rtde.GodotVariant V] in
/-- A step that leaves the work thread where it is. -/
theorem LastRound.of_same {x' : Lifetime V} (h : LastRound taken (x, r)) (hpast : x'.Past 2)
    (hwork : x'.machine.work = x.machine.work)
    (hqueue : x'.machine.comms.writeQueue = x.machine.comms.writeQueue) (hloop : x'.loop = x.loop) :
    LastRound taken (x', r) where
  past := hpast
  account := by
    rw [← h.account]
    simp only [Lifetime.pending, hwork, hqueue]
  whole := by
    have hwhole := h.whole
    simpa only [Lifetime.pending, hwork, hqueue, hloop] using hwhole
  polls := by
    have hpolls := h.polls
    simpa only [Lifetime.pollsLeft, hwork, hloop] using hpolls

omit [Rtde.GodotVariant V] in
/-- A step that keeps the account, and makes no more polls than it might. -/
theorem LastRound.next {x' : Lifetime V} {r' : Round V} (h : LastRound taken (x, r))
    (hpast : x'.Past 2) (haccount : r'.handed ++ x'.pending = r.handed ++ x.pending)
    (hwhole : r'.handed = [] ∨ x'.pending = [] ∨
      (x'.loop = .body ∧ flushing x'.machine.work = true))
    (hpolls : r'.polls + x'.pollsLeft ≤ r.polls + x.pollsLeft) : LastRound taken (x', r') where
  past := hpast
  account := haccount.trans h.account
  whole := hwhole
  polls := hpolls.trans h.polls

omit [Rtde.GodotVariant V] in
/-- Outside `flush_all_writes` nothing has been handed over or nothing is left. -/
theorem LastRound.settled (h : LastRound taken (x, r)) (hwork : flushing x.machine.work = false) :
    r.handed = [] ∨ x.pending = [] := by
  rcases h.whole with hnone | hall | ⟨-, hflushing⟩
  · exact .inl hnone
  · exact .inr hall
  · rw [hwork] at hflushing
    cases hflushing

omit [Rtde.GodotVariant V] in
/-- The pop takes a name, and no write. -/
theorem lastRound_pop (h : LastRound taken (x, r)) (hloop : x.loop = .body)
    (hwork : x.machine.work = .pop) (hpast : x.popName.Past 2) :
    LastRound taken (x.popName, r) := by
  have hsettled := h.settled (by rw [hwork]; rfl)
  obtain ⟨-, -, hsame⟩ | ⟨name, rest, -, hname⟩ := popName_cases x
  · rw [hsame]
    exact h
  · rw [hname] at hpast ⊢
    have hpending : x.pending = x.machine.comms.writeQueue := by
      simp only [Lifetime.pending, hwork, Work.inHand, List.nil_append]
    refine h.next hpast (by rw [hpending]; rfl) ?_ ?_
    · rw [hpending] at hsettled
      exact hsettled.imp_right .inl
    · simp only [Lifetime.pollsLeft, hloop, hwork]
      split <;> omega

/-- The flush takes the first write in hand, or goes on when there is none. -/
theorem lastRound_flush {name : CStr} {first : Bool} (h : LastRound taken (x, r))
    (hloop : x.loop = .body) (hwork : x.machine.work = .flush name first) (write : WriteEnv)
    (poll : Env V) (hpast : (x.workStep write poll).Past 2) :
    LastRound taken (x.workStep write poll, r) := by
  have hpending : x.pending = x.machine.comms.writeQueue := by
    simp only [Lifetime.pending, hwork, Work.inHand, List.nil_append]
  cases hqueue : x.machine.comms.writeQueue with
  | nil =>
    -- the queue is empty, and the work goes on to the clean-up or the poll
    have hstep : ∃ work, x.workStep write poll = { x with machine := { x.machine with
        work := work } } ∧ (work = .cleanup name ∨ work = .process name) := by
      cases first with
      | true => exact ⟨.cleanup name,
          by simp [Lifetime.workStep, hloop, hwork, Machine.workStep, hqueue, atPop], .inl rfl⟩
      | false => exact ⟨.process name,
          by simp [Lifetime.workStep, hloop, hwork, Machine.workStep, hqueue, atPop], .inr rfl⟩
    obtain ⟨work, hstep, hnext⟩ := hstep
    rw [hstep] at hpast ⊢
    obtain rfl | rfl := hnext
    · exact h.next hpast (by rw [hpending]; rfl) (.inr (.inl hqueue))
        (by simp only [Lifetime.pollsLeft, hloop, hwork, Nat.le_refl])
    · exact h.next hpast (by rw [hpending]; rfl) (.inr (.inl hqueue))
        (by simp only [Lifetime.pollsLeft, hloop, hwork, Nat.le_refl])
  | cons w rest =>
    have hstep : x.workStep write poll = { x with machine := { x.machine with
        comms := { x.machine.comms with writeQueue := rest }
        work := .handing name first w } } := by
      simp [Lifetime.workStep, hloop, hwork, Machine.workStep, hqueue, atPop]
    rw [hstep] at hpast ⊢
    exact h.next hpast (by rw [hpending, hqueue]; rfl) (.inr (.inr ⟨hloop, rfl⟩))
      (by simp only [Lifetime.pollsLeft, hloop, hwork, Nat.le_refl])

/-- The write in hand is handed over. -/
theorem lastRound_handing {name : CStr} {first : Bool} {w : WriteRequest V}
    (h : LastRound taken (x, r)) (hloop : x.loop = .body)
    (hwork : x.machine.work = .handing name first w) (write : WriteEnv) (poll : Env V)
    (hpast : (x.workStep write poll).Past 2) :
    LastRound taken (x.workStep write poll, { r with handed := r.handed ++ [w] }) := by
  have hstep : x.workStep write poll = { x with machine := { x.machine with
      comms := x.machine.comms.processWrite write w
      work := .flush name first } } := by
    simp [Lifetime.workStep, hloop, hwork, Machine.workStep, atPop]
  have hqueue : (x.machine.comms.processWrite write w).writeQueue = x.machine.comms.writeQueue :=
    change_writeQueue _ _
  rw [hstep] at hpast ⊢
  refine h.next hpast ?_ (.inr (.inr ⟨hloop, rfl⟩))
    (by simp only [Lifetime.pollsLeft, hloop, hwork, Nat.le_refl])
  simp only [Lifetime.pending, hwork, Work.inHand, hqueue, List.nil_append, List.append_assoc,
    List.singleton_append]

/-- The clean-up leaves the writes. -/
theorem lastRound_cleanup {name : CStr} (h : LastRound taken (x, r)) (hloop : x.loop = .body)
    (hwork : x.machine.work = .cleanup name) (write : WriteEnv) (poll : Env V)
    (hpast : (x.workStep write poll).Past 2) : LastRound taken (x.workStep write poll, r) := by
  have hstep : x.workStep write poll = { x with machine := { x.machine with
      comms := x.machine.comms.cleanupTagGroups
      work := .flush name false } } := by
    simp [Lifetime.workStep, hloop, hwork, Machine.workStep, atPop]
  have hqueue : x.machine.comms.cleanupTagGroups.writeQueue = x.machine.comms.writeQueue :=
    change_writeQueue _ _
  rw [hstep] at hpast ⊢
  exact h.next hpast (by simp only [Lifetime.pending, hwork, Work.inHand, hqueue])
    (.inr (.inr ⟨hloop, rfl⟩)) (by simp only [Lifetime.pollsLeft, hloop, hwork, Nat.le_refl])

/-- The poll leaves the writes, and is the last. -/
theorem lastRound_process {name : CStr} (h : LastRound taken (x, r)) (hloop : x.loop = .body)
    (hwork : x.machine.work = .process name) (write : WriteEnv) (poll : Env V)
    (hpast : (x.workStep write poll).Past 2) :
    LastRound taken (x.workStep write poll, noteRound x (.work write poll) r) := by
  have hqueue : (x.machine.comms.processTagGroup name poll).2.writeQueue =
      x.machine.comms.writeQueue := by
    unfold State.processTagGroup
    split
    · split
      · exact change_writeQueue _ _
      · exact change_writeQueue _ _
    · rfl
  have hhanded : (noteRound x (.work write poll) r).handed = r.handed := by
    simp only [noteRound, hloop, if_true, hwork]
    split <;> rfl
  have hpolls : (noteRound x (.work write poll) r).polls ≤ r.polls + 1 := by
    simp only [noteRound, hloop, if_true, hwork]
    split
    · exact Nat.le_refl _
    · exact Nat.le_succ _
  have hleft : x.pollsLeft = 1 := by simp only [Lifetime.pollsLeft, hloop, hwork]
  -- the poll leaves the writes, and comes back to the pop or to a push
  have hnext : (x.workStep write poll).pending = x.pending ∧
      (x.workStep write poll).pollsLeft = 0 := by
    rcases Option.eq_none_or_eq_some (x.machine.comms.processTagGroup name poll).1 with
      hnone | ⟨name', hsome⟩
    · simp [Lifetime.workStep, Lifetime.pending, Lifetime.pollsLeft, hloop, hwork,
        Machine.workStep, hnone, atPop, Work.inHand, hqueue]
    · simp [Lifetime.workStep, Lifetime.pending, Lifetime.pollsLeft, hloop, hwork,
        Machine.workStep, hsome, atPop, Work.inHand, hqueue]
  refine h.next hpast (by rw [hhanded, hnext.1]) ?_ (by omega)
  rw [hhanded, hnext.1]
  exact (h.settled (by rw [hwork]; rfl)).imp_right .inl

/-- The push leads back to the test of the loop. -/
theorem lastRound_push {name : CStr} (h : LastRound taken (x, r)) (hloop : x.loop = .body)
    (hwork : x.machine.work = .push name) (write : WriteEnv) (poll : Env V)
    (hpast : (x.workStep write poll).Past 2) : LastRound taken (x.workStep write poll, r) := by
  have hstep : x.workStep write poll = { x with
      machine := { x.machine with comms := x.machine.comms.queueTagGroup name, work := .pop }
      loop := .head } := by
    simp [Lifetime.workStep, hloop, hwork, Machine.workStep, atPop]
  have hpending : x.pending = x.machine.comms.writeQueue := by
    simp only [Lifetime.pending, hwork, Work.inHand, List.nil_append]
  have hsettled := h.settled (by rw [hwork]; rfl)
  rw [hpending] at hsettled
  rw [hstep] at hpast ⊢
  exact h.next hpast (by rw [hpending]; rfl) (hsettled.imp_right .inl) (Nat.le_add_right _ _)

/-- A step of the body, place by place. -/
theorem lastRound_body (h : LastRound taken (x, r)) (hloop : x.loop = .body) (write : WriteEnv)
    (poll : Env V) (hpast : (x.workStep write poll).Past 2) :
    LastRound taken (x.workStep write poll, noteRound x (.work write poll) r) := by
  cases hwork : x.machine.work with
  | pop =>
    have hstep : x.workStep write poll = x.popName := by simp only [Lifetime.workStep, hloop, hwork]
    have hnote : noteRound x (.work write poll) r = r := by simp only [noteRound, hwork, ite_self]
    rw [hstep] at hpast ⊢
    rw [hnote]
    exact lastRound_pop h hloop hwork hpast
  | flush name first =>
    have hnote : noteRound x (.work write poll) r = r := by simp only [noteRound, hwork, ite_self]
    rw [hnote]
    exact lastRound_flush h hloop hwork write poll hpast
  | handing name first w =>
    have hnote : noteRound x (.work write poll) r = { r with handed := r.handed ++ [w] } := by
      simp only [noteRound, hloop, if_true, hwork]
    rw [hnote]
    exact lastRound_handing h hloop hwork write poll hpast
  | cleanup name =>
    have hnote : noteRound x (.work write poll) r = r := by simp only [noteRound, hwork, ite_self]
    rw [hnote]
    exact lastRound_cleanup h hloop hwork write poll hpast
  | process name => exact lastRound_process h hloop hwork write poll hpast
  | push name =>
    have hnote : noteRound x (.work write poll) r = r := by simp only [noteRound, hwork, ite_self]
    rw [hnote]
    exact lastRound_push h hloop hwork write poll hpast

/-- Every step keeps it. -/
theorem lastRound_step (y : Lifetime V × Round V) (l : Step V) (h : LastRound taken y) :
    LastRound taken (watch Lifetime.step noteRound y l) := by
  obtain ⟨x, r⟩ := y
  have hpast : (x.step l).Past 2 := past_step 2 x l h.past
  simp only [watch]
  by_cases hgone : x.closing = .cleaned
  · have hended : x.loop = .ended := h.past.1.workFinished (by rw [hgone]; decide)
    have hsame : x.step l = x := if_pos hgone
    have hnote : noteRound x l r = r := by
      cases l with
      | work write poll => simp only [noteRound, hended, reduceCtorEq, if_false]
      | use l | watchdog mainScene | destroy => rfl
    rw [hsame, hnote]
    exact h
  cases l with
  | use l =>
    have hstep : x.step (.use l) = x.useStep l := if_neg hgone
    rw [hstep] at hpast ⊢
    obtain hsame | ⟨huse, hqueue, hwork⟩ := use_closing h.past.not_alive l
    · rw [hsame]
      exact h
    · rw [huse] at hpast ⊢
      exact h.of_same hpast hwork hqueue rfl
  | work write poll =>
    have hstep : x.step (.work write poll) = x.workStep write poll := if_neg hgone
    rw [hstep] at hpast ⊢
    cases hloop : x.loop with
    | body => exact lastRound_body h hloop write poll hpast
    | ended =>
      have hnote : noteRound x (.work write poll) r = r := by
        simp only [noteRound, hloop, reduceCtorEq, if_false]
      have hstay : x.workStep write poll = x := by simp only [Lifetime.workStep, hloop]
      rw [hstay, hnote]
      exact h
    | head | woken =>
      have hnote : noteRound x (.work write poll) r = r := by
        simp only [noteRound, hloop, reduceCtorEq, if_false]
      have hrunning : x.workThreadRunning = false := by
        rw [h.past.1.work]
        exact decide_eq_false (Nat.not_lt.mpr h.past.2)
      have hend : x.workStep write poll = { x with loop := .ended } := by
        simp [Lifetime.workStep, hloop, hrunning]
      rw [hend] at hpast ⊢
      rw [hnote]
      have hwhole := h.whole
      have hpolls := h.polls
      simp only [hloop, reduceCtorEq, false_and, or_false, Lifetime.pollsLeft] at hwhole hpolls
      exact ⟨hpast, h.account, hwhole.imp_right .inl, hpolls⟩
  | watchdog mainScene =>
    have hstep : x.step (.watchdog mainScene) = x.watchdogStep mainScene := if_neg hgone
    rw [hstep] at hpast ⊢
    refine h.of_same hpast ?_ ?_ ?_
    all_goals
      unfold Lifetime.watchdogStep
      cases x.watchdog <;> rfl
  | destroy =>
    have hstep : x.step .destroy = x.destroyStep := if_neg hgone
    rw [hstep] at hpast ⊢
    have hsame : x.destroyStep.machine.work = x.machine.work ∧
        x.destroyStep.machine.comms.writeQueue = x.machine.comms.writeQueue ∧
          x.destroyStep.loop = x.loop := by
      unfold Lifetime.destroyStep
      cases x.closing with
      | shut | workFinished =>
        simp only
        split
        · exact ⟨rfl, rfl, rfl⟩
        · exact ⟨rfl, rfl, rfl⟩
      | finished => exact ⟨rfl, change_writeQueue _ _, rfl⟩
      | alive | watchdogStopped | workStopped | cleaned => exact ⟨rfl, rfl, rfl⟩
    exact h.of_same hpast hsame.1 hsame.2.1 hsame.2.2

/-- The object after more steps, with what they handed over and polled. -/
def lastRound (x : Lifetime V) (ls : List (Step V)) : Lifetime V × Round V :=
  run (watch Lifetime.step noteRound) (x, {}) ls

/-- Once the flag of the work thread is down, it hands over the writes that are left in their order,
and polls once at most; when it has ended, it has handed over all of them or none. -/
theorem last_round (ls ls' : List (Step V)) (hdown : (lifetime ls).workThreadRunning = false) :
    (lastRound (lifetime ls) ls').2.handed ++ (lastRound (lifetime ls) ls').1.pending =
        (lifetime ls).pending ∧
      (lastRound (lifetime ls) ls').2.polls ≤ 1 ∧
      ((lastRound (lifetime ls) ls').1.loop = .ended →
        (lastRound (lifetime ls) ls').2.handed = [] ∨
          (lastRound (lifetime ls) ls').2.handed = (lifetime ls).pending) := by
  have hflagged : (lifetime ls).Flagged :=
    run_of_invariant Lifetime.step flagged_step (flagged_start (V := V)) ls
  generalize lifetime ls = x at *
  have hpast : x.Past 2 := by
    refine ⟨hflagged, ?_⟩
    have hwork := hflagged.work
    rw [hdown] at hwork
    exact Nat.not_lt.mp (of_decide_eq_false hwork.symm)
  have hstart : LastRound x.pending (x, ({} : Round V)) := by
    refine ⟨hpast, rfl, .inl rfl, ?_⟩
    unfold Lifetime.pollsLeft
    split <;> simp
  have hround : LastRound x.pending (lastRound x ls') :=
    run_of_invariant (watch Lifetime.step noteRound) lastRound_step hstart ls'
  generalize lastRound x ls' = y at *
  refine ⟨hround.account, Nat.le_of_add_right_le hround.polls, fun hended => ?_⟩
  rcases hround.whole with hnone | hall | ⟨hbody, -⟩
  · exact .inl hnone
  · have haccount := hround.account
    rw [hall, List.append_nil] at haccount
    exact .inr haccount
  · rw [hended] at hbody
    cases hbody

omit [Rtde.GodotVariant V] in
/-- A write whose name the work thread pops after the flag is down is not handed over. -/
theorem last_round_none :
    (lastRound (lifetime (polledOnce ++ [.work {} {},
        .use (.call (.write ⟨0, "g".toList, "MB0".toList, true⟩)), .use (.push 0),
        .destroy, .destroy])) [.work {} {}, .work {} {}]).2.handed = [] ∧
      (lifetime (polledOnce ++ [.work {} {},
        .use (.call (.write ⟨0, "g".toList, "MB0".toList, true⟩)), .use (.push 0),
        .destroy, .destroy])).pending ≠ [] := by
  have hround := last_round (polledOnce ++ [.work {} {},
    .use (.call (.write ⟨0, "g".toList, "MB0".toList, true⟩)), .use (.push 0),
    .destroy, .destroy]) [.work {} {}, .work {} {}] (by decide)
  have hpending : (lifetime (polledOnce ++ [.work {} {},
        .use (.call (.write ⟨0, "g".toList, "MB0".toList, true⟩)), .use (.push 0),
        .destroy, .destroy])).pending ≠ [] := by decide
  refine ⟨(hround.2.2 (by decide)).resolve_right ?_, hpending⟩
  decide

/-! ## What is given back -/

/-- A step loses nothing. -/
def Lifetime.LosesNothing (x : Lifetime V) (l : Step V) : Prop :=
  x.machine.comms.LosesNothing (x.change l)

omit [Rtde.GodotVariant V] in
/-- A group that a step puts in the map is as `register_tag_group` makes it. -/
theorem lifetime_register {x : Lifetime V} {l : Step V} {name : CStr} {g : TagGroup V}
    (h : x.change l = .register name g) :
    ∃ pollingInterval protocol gateway path cpu,
      g = TagGroup.registered pollingInterval protocol gateway path cpu := by
  unfold Lifetime.change at h
  split at h
  · cases h
  cases l with
  | use l =>
    simp only at h
    split at h
    · exact Machine.change_register h
    · cases h
  | work write poll =>
    simp only at h
    split at h
    · exact Machine.change_register (m := x.machine) (l := .work write poll) h
    · cases h
  | watchdog mainScene => cases h
  | destroy =>
    simp only at h
    split at h
    · cases h
    · cases h

/-- After the clean-up of the destructor a group holds at most a soft PLC object. -/
def Lifetime.Emptied (x : Lifetime V) : Prop :=
  x.closing = .cleaned → x.machine.comms.Every fun g => g.Bare ↔ g.softPlcImpl = none

/-- What a lifetime that loses nothing keeps. -/
structure Lifetime.Returning (x : Lifetime V) : Prop where
  housed : x.machine.comms.Every TagGroup.Housed
  tight : x.machine.comms.Every TagGroup.Tight
  accounted : x.machine.Accounted
  emptied : x.Emptied

omit [Rtde.GodotVariant V] in
/-- The constructor has made nothing that is to be given back. -/
theorem returning_start : ({} : Lifetime V).Returning := by
  have hnone : ∀ {P : TagGroup V → Prop}, ({} : State V).Every P := by
    intro P name g hget
    cases Std.ExtTreeMap.getElem?_empty.symm.trans hget
  exact ⟨hnone, hnone, rfl, fun _ => hnone⟩

omit [Rtde.GodotVariant V] in
/-- What is said of every group is said where the groups are the same. -/
theorem State.Every.of_same {P : TagGroup V → Prop} {s s' : State V} (hsame : s.Same s')
    (h : s'.Every P) : s.Every P := by
  intro name g hget
  rw [hsame.tagGroups] at hget
  exact h name g hget

/-- The last statement of the destructor leaves a group at most its soft PLC object. -/
theorem emptied_step {x : Lifetime V} (h : x.Returning) (l : Step V) : (x.step l).Emptied := by
  intro hcleaned
  by_cases hgone : x.closing = .cleaned
  · have hsame : x.step l = x := if_pos hgone
    rw [hsame]
    exact h.emptied hgone
  have hstep := hcleaned
  cases l with
  | use l =>
    have hstep : x.step (.use l) = x.useStep l := if_neg hgone
    rw [hstep, (useStep_flags x l).closing] at hcleaned
    exact absurd hcleaned hgone
  | work write poll =>
    have hstep : x.step (.work write poll) = x.workStep write poll := if_neg hgone
    rw [hstep, (workStep_flags x write poll).closing] at hcleaned
    exact absurd hcleaned hgone
  | watchdog mainScene =>
    have hstep : x.step (.watchdog mainScene) = x.watchdogStep mainScene := if_neg hgone
    rw [hstep, (watchdogStep_flags x mainScene).closing] at hcleaned
    exact absurd hcleaned hgone
  | destroy =>
    have hstep : x.step .destroy = x.destroyStep := if_neg hgone
    rw [hstep] at hcleaned ⊢
    unfold Lifetime.destroyStep at hcleaned ⊢
    cases hclosing : x.closing with
    | finished =>
      intro name g hget
      have hget : (x.machine.comms.tagGroups.map
          fun _ g => (g.after x.machine.comms.next .cleanup).group)[name]? = some g := hget
      rw [Std.ExtTreeMap.getElem?_map] at hget
      obtain ⟨g', hget', rfl⟩ := Option.map_eq_some_iff.mp hget
      exact bare_cleanup (v := { group := g', next := x.machine.comms.next })
        (h.housed name g' hget')
    | cleaned => exact absurd hclosing hgone
    | alive | watchdogStopped | workStopped => simp [hclosing] at hcleaned
    | shut | workFinished =>
      simp only [hclosing] at hcleaned
      split at hcleaned
      · cases hcleaned
      · rw [hclosing] at hcleaned
        cases hcleaned

/-- Every step that loses nothing keeps the account. -/
theorem returning_step (x : Lifetime V) (l : Step V) (h : x.Returning) (hloses : x.LosesNothing l) :
    (x.step l).Returning := by
  have hsame := lifetime_same x l
  have hbare : ∀ name g, x.change l = .register name g → g.Bare := by
    intro name g hregister
    obtain ⟨pollingInterval, protocol, gateway, path, cpu, rfl⟩ := lifetime_register hregister
    exact bare_registered pollingInterval protocol gateway path cpu
  refine ⟨?_, ?_, ?_, emptied_step h l⟩
  · refine .of_same hsame (h.housed.change housed_empty (fun name g hregister => ?_) ?_)
    · obtain ⟨pollingInterval, protocol, gateway, path, cpu, rfl⟩ := lifetime_register hregister
      exact housed_registered pollingInterval protocol gateway path cpu
    · exact fun y _ hy =>
        (stays_apply (v := { group := y.2.1, next := x.machine.comms.next }) hy y.2.2).1
  · exact .of_same hsame (tight_change h.tight hbare hloses)
  · obtain ⟨calls, hcalls, hbalanced⟩ := balanced_change h.tight hbare
    have hheld : (x.step l).machine.comms.held = (x.machine.comms.change (x.change l)).held := by
      rw [State.held, hsame.tagGroups, State.held]
    rw [Machine.Accounted, hsame.calls, hcalls, hheld, acquired_append, released_append,
      account_iff hbalanced h.accounted]
    exact (lost_change_eq_zero_iff h.housed (x.change l)).mpr hloses

/-- Where no step of a lifetime loses anything, all that the groups got from the libraries or made with
`new` is given back, by the call that gives it back, when the destructor has returned, if and only if
no group is left with a soft PLC object: one its protocol does not have. -/
theorem destroyed_returned (ls : List (Step V))
    (hloses : Meets Lifetime.step Lifetime.LosesNothing ({} : Lifetime V) ls)
    (hcleaned : (lifetime ls).closing = .cleaned) :
    acquired (lifetime ls).machine.comms.calls = released (lifetime ls).machine.comms.calls ↔
      (lifetime ls).machine.comms.Every fun g => g.softPlcImpl = none := by
  have hreturning : (lifetime ls).Returning :=
    (along_of_meets Lifetime.step returning_step returning_start hloses).last
  generalize lifetime ls = x at *
  have haccounted : acquired x.machine.comms.calls =
      x.machine.comms.held + released x.machine.comms.calls := hreturning.accounted
  have hheld : x.machine.comms.held = 0 ↔ x.machine.comms.Every TagGroup.Bare := by
    rw [State.held, total_eq_zero_iff]
    exact forall_congr' fun name => forall_congr' fun g => forall_congr' fun _ => holds_eq_zero_iff g
  rw [haccounted, add_eq_right, hheld]
  exact forall_congr' fun name => forall_congr' fun g => forall_congr' fun hget =>
    hreturning.emptied hcleaned name g hget

omit [Rtde.GodotVariant V] in
/-- The handle of a tag that was polled is given back by the destructor. -/
theorem destroyed_returned_polled :
    Meets Lifetime.step Lifetime.LosesNothing ({} : Lifetime Bool)
        (polledOnce ++ [.destroy, .destroy, .destroy, .work {} {}, .watchdog true, .watchdog true,
          .destroy, .destroy, .destroy]) ∧
      (acquired (lifetime (polledOnce ++ [.destroy, .destroy, .destroy, .work {} {}, .watchdog true,
          .watchdog true, .destroy, .destroy, .destroy])).machine.comms.calls =
        released (lifetime (polledOnce ++ [.destroy, .destroy, .destroy, .work {} {}, .watchdog true,
          .watchdog true, .destroy, .destroy, .destroy])).machine.comms.calls ↔
        (lifetime (polledOnce ++ [.destroy, .destroy, .destroy, .work {} {}, .watchdog true,
          .watchdog true, .destroy, .destroy, .destroy])).machine.comms.Every
            fun g => g.softPlcImpl = none) := by
  have hloses : Meets Lifetime.step Lifetime.LosesNothing ({} : Lifetime Bool)
      (polledOnce ++ [.destroy, .destroy, .destroy, .work {} {}, .watchdog true, .watchdog true,
        .destroy, .destroy, .destroy]) := by
    refine ⟨trivial, trivial, ?_, id, trivial, fun _ _ _ h => h, trivial, trivial, trivial, ?_,
      trivial, trivial, trivial, trivial, trivial, trivial, trivial, trivial, fun _ _ _ h => h,
      trivial⟩
    · intro g hget
      cases Std.ExtTreeMap.getElem?_empty.symm.trans hget
    · exact fun h => absurd h.1 (by decide)
  exact ⟨hloses, destroyed_returned _ hloses (by decide)⟩

end

end OipComms.Backend
