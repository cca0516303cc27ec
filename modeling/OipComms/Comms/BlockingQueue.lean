import OipComms.Comms.Worker
import OipComms.Lib.Wakeups

/-!
# The blocking queue

`OIPBlockingQueue`, through which the names of the groups go from the main thread to the work thread:
a `std::queue` behind a mutex, a condition variable, and the flag of `shutdown`. Its methods are
operations of a monitor, access by access, so any number of threads may be anywhere in them.

It is a queue: the messages come out in the order in which they were pushed, each once
(`fifo_run`). And no `pop` is left waiting for a message that is there, nor after `shutdown`
(`pop_waits`).
-/

namespace OipComms.Comms

open Monitor Run

/-- `OIPBlockingQueue`, less the mutex and the condition variable. -/
structure OIPBlockingQueue where
  queue : List CStr := []
  stop : Bool := false
  deriving DecidableEq, Repr

/-- The public methods. -/
inductive Method
  | push (message : CStr)
  | pop
  | shutdown
  deriving DecidableEq, Repr

/-- What a method returns. `returned` is set where `pop` returns early, with an empty string. -/
structure Answer where
  message : CStr := []
  returned : Bool := false
  deriving DecidableEq, Repr

/-- `push`. -/
def OIPBlockingQueue.push (message : CStr) : Op OIPBlockingQueue Answer where
  guard := none
  body := [fun (q, a) => ({ q with queue := q.queue ++ [message] }, a)]
  start := {}
  signal := .one

/-- `pop`. -/
def OIPBlockingQueue.pop : Op OIPBlockingQueue Answer where
  guard := some fun q => !q.queue.isEmpty || q.stop
  body := [
    fun (q, a) => (q, { a with returned := q.stop && q.queue.isEmpty }),
    fun (q, a) => if a.returned then (q, a) else (q, { a with message := q.queue.headD [] }),
    fun (q, a) => if a.returned then (q, a) else ({ q with queue := q.queue.tail }, a)]
  start := {}
  signal := .none

/-- `shutdown`. -/
def OIPBlockingQueue.shutdown : Op OIPBlockingQueue Answer where
  guard := none
  body := [fun (q, a) => ({ q with stop := true }, a)]
  start := {}
  signal := .all

def Method.op : Method → Op OIPBlockingQueue Answer
  | .push message => OIPBlockingQueue.push message
  | .pop => OIPBlockingQueue.pop
  | .shutdown => OIPBlockingQueue.shutdown

/-- All calls on a queue, with the methods in the order in which they unlock. -/
abbrev Calls := Monitor.State Method OIPBlockingQueue Answer × List (Commit Method Answer)

/-- The calls on a new queue after a list of labels. -/
def calls (ls : List (Monitor.Label Method)) : Calls :=
  run (watch (Monitor.State.step Method.op) noteCommit) (Monitor.State.start {}, []) ls

/-! ## The methods in one go -/

/-- A push, made whole. -/
theorem push_whole (message : CStr) (q : OIPBlockingQueue) :
    (Method.push message).op.whole q = ({ q with queue := q.queue ++ [message] }, {}) := rfl

/-- A shutdown, made whole. -/
theorem shutdown_whole (q : OIPBlockingQueue) :
    Method.shutdown.op.whole q = ({ q with stop := true }, {}) := rfl

/-- A pop of a queue with a message, made whole. -/
theorem pop_whole_cons (message : CStr) (rest : List CStr) (stop : Bool) :
    Method.pop.op.whole ⟨message :: rest, stop⟩ = (⟨rest, stop⟩, { message := message }) := by
  cases stop <;> rfl

/-- A pop of an empty queue that was shut down, made whole. -/
theorem pop_whole_nil :
    Method.pop.op.whole ⟨[], true⟩ = (⟨[], true⟩, { returned := true }) := rfl

/-- A `pop` past its wait takes the first message, or finds an empty queue that is shut down. -/
theorem pop_ready {q : OIPBlockingQueue} (h : Method.pop.op.ready q = true) :
    (∃ message rest, q.queue = message :: rest) ∨ q = ⟨[], true⟩ := by
  obtain ⟨queue, stop⟩ := q
  cases queue with
  | cons message rest => exact .inl ⟨message, rest, rfl⟩
  | nil =>
    cases stop with
    | true => exact .inr rfl
    | false => cases h

/-! ## First in, first out -/

/-- The messages pushed. -/
def pushes (h : List (Commit Method Answer)) : List CStr :=
  h.filterMap fun c =>
    match c.method with
    | .push message => some message
    | _ => none

/-- The messages popped. -/
def taken (h : List (Commit Method Answer)) : List CStr :=
  h.filterMap fun c =>
    match c.method with
    | .pop => if c.answer.returned then none else some c.answer.message
    | _ => none

/-- What comes out of a queue, and then what is left in it, is what was in it, and then what went
in. -/
theorem pushes_eq {q : OIPBlockingQueue} {h : List (Commit Method Answer)}
    (hserial : Serial Method.op q h) :
    q.queue ++ pushes h = taken h ++ (after Method.op q h).queue := by
  induction h generalizing q with
  | nil => exact List.append_nil _
  | cons c h ih =>
    obtain ⟨hready, hanswer, hrest⟩ := hserial
    have htail := ih hrest
    obtain ⟨i, method, answer⟩ := c
    cases method with
    | push message =>
      rw [push_whole] at htail
      simpa [pushes, taken, after, push_whole] using htail
    | shutdown =>
      rw [shutdown_whole] at htail
      simpa [pushes, taken, after, shutdown_whole] using htail
    | pop =>
      obtain ⟨queue, stop⟩ := q
      obtain ⟨message, rest, hq⟩ | hq := pop_ready hready
      · simp only at hq
        subst hq
        rw [pop_whole_cons] at hanswer htail
        simp only at hanswer
        subst hanswer
        simpa [pushes, taken, after, pop_whole_cons] using htail
      · cases hq
        rw [pop_whole_nil] at hanswer htail
        simp only at hanswer
        subst hanswer
        simpa [pushes, taken, after, pop_whole_nil] using htail

/-- A queue is shut down once `shutdown` has been called. -/
theorem stop_after (q : OIPBlockingQueue) (h : List (Commit Method Answer))
    (hserial : Serial Method.op q h) :
    (after Method.op q h).stop = true ↔ q.stop = true ∨ ∃ c ∈ h, c.method = .shutdown := by
  induction h generalizing q with
  | nil => simp [after]
  | cons c h ih =>
    obtain ⟨hready, -, hrest⟩ := hserial
    have htail := ih _ hrest
    simp only [after, List.foldl_cons] at htail ⊢
    rw [htail]
    obtain ⟨i, method, answer⟩ := c
    cases method with
    | push message => simp [push_whole]
    | shutdown => simp [shutdown_whole]
    | pop =>
      obtain ⟨queue, stop⟩ := q
      obtain ⟨message, rest, hq⟩ | hq := pop_ready hready
      · simp only at hq
        subst hq
        simp [pop_whole_cons]
      · cases hq
        simp [pop_whole_nil]

/-- What can be said of the calls on a queue, wherever they stand. -/
structure Fifo (x : Calls) : Prop where
  /-- One call at a time is between lock and unlock. -/
  exclusive : ∀ i j, At x.1.calls i (·.inside = true) → At x.1.calls j (·.inside = true) → i = j
  /-- What has come out is the first part of what went in, and the rest is in the queue. -/
  order : pushes x.2 = taken x.2 ++ (after Method.op {} x.2).queue
  idle : x.1.holder = none → x.1.data = after Method.op {} x.2
  /-- A call has its answer from its place in this order. -/
  answered : ∀ i method answer,
    ⟨i, method, answer⟩ ∈ x.2 ↔ At x.1.calls i (Place.Finished method answer)
  once : (x.2.map Commit.call).Nodup
  /-- `pop` returns early only after `shutdown`, and not before all that was pushed is out. -/
  drained : ∀ before c rest, x.2 = before ++ c :: rest → c.method = .pop →
    c.answer.returned = true →
      pushes before = taken before ∧ ∃ c' ∈ before, c'.method = .shutdown

/-- A `pop` that returns early has found the queue empty and shut down. -/
theorem drained_of_serial {before rest : List (Commit Method Answer)} {c : Commit Method Answer}
    (hserial : Serial Method.op {} (before ++ c :: rest)) (hpop : c.method = .pop)
    (hreturned : c.answer.returned = true) :
    pushes before = taken before ∧ ∃ c' ∈ before, c'.method = .shutdown := by
  obtain ⟨hbefore, hready, hanswer, -⟩ := (serial_append Method.op {} before (c :: rest)).mp hserial
  rw [hpop] at hready hanswer
  obtain ⟨message, left, hq⟩ | hq := pop_ready hready
  · have heq : after Method.op {} before = ⟨message :: left, (after Method.op {} before).stop⟩ := by
      rw [← hq]
    rw [hanswer, heq, pop_whole_cons] at hreturned
    cases hreturned
  · have horder := pushes_eq hbefore
    rw [hq] at horder
    have hstop := (stop_after {} before hbefore).mp (by rw [hq])
    refine ⟨by simpa using horder, ?_⟩
    rcases hstop with hstop | hstop
    · cases hstop
    · exact hstop

/-- However many threads are in the queue, and however their steps interleave, it is first in, first
out. -/
theorem fifo_run (ls : List (Monitor.Label Method)) : Fifo (calls ls) := by
  obtain ⟨hexclusive, hserialized⟩ := serialized_run Method.op {} ls
  refine ⟨fun i j hi hj => ?_, ?_, fun hfree => ?_, hserialized.committed, hserialized.once, ?_⟩
  · have hholder := (hexclusive i).mpr hi
    rw [(hexclusive j).mpr hj] at hholder
    exact (Option.some.inj hholder).symm
  · exact pushes_eq hserialized.serial
  · exact hserialized.idle fun i method rest r hi =>
      hexclusive.not_acting_of_free hfree i method rest r hi
  · intro before c rest heq hpop hreturned
    exact drained_of_serial (heq ▸ hserialized.serial) hpop hreturned

/-! ## No `pop` is left waiting -/

/-- The number of `pop`s a queue lets through. -/
def OIPBlockingQueue.supply (q : OIPBlockingQueue) : ℕ∞ := if q.stop then ⊤ else q.queue.length

/-- A pop goes on where there is a supply. -/
theorem supply_ne_zero (q : OIPBlockingQueue) :
    (!q.queue.isEmpty || q.stop) = true ↔ q.supply ≠ 0 := by
  obtain ⟨queue, stop⟩ := q
  cases stop <;> cases queue <;> simp [OIPBlockingQueue.supply]

/-- `push` adds one and wakes one, `pop` takes one, and `shutdown` wakes all. -/
theorem method_settles (method : Method) : method.op.Settles OIPBlockingQueue.supply := by
  cases method with
  | push message =>
    refine ⟨fun g hg => (by cases hg), .inr fun q _ => ?_⟩
    rw [push_whole]
    cases hstop : q.stop <;>
      simp [OIPBlockingQueue.supply, hstop, Method.op, OIPBlockingQueue.push]
  | pop =>
    refine ⟨fun g hg q => ?_, .inr fun q hready => ?_⟩
    · cases hg
      exact supply_ne_zero q
    · obtain ⟨queue, stop⟩ := q
      obtain ⟨message, rest, hq⟩ | hq := pop_ready hready
      · simp only at hq
        subst hq
        rw [pop_whole_cons]
        cases stop <;> simp [OIPBlockingQueue.supply, Method.op, OIPBlockingQueue.pop]
      · cases hq
        rw [pop_whole_nil]
        simp [OIPBlockingQueue.supply, Method.op, OIPBlockingQueue.pop]
  | shutdown => exact ⟨fun g hg => (by cases hg), .inl rfl⟩

/-- A call that waits is a `pop`. -/
theorem waiting_pop (ls : List (Monitor.Label Method)) {method : Method}
    (hwaiting : .waiting method ∈ (calls ls).1.calls) : method = .pop := by
  have hsupplied := run_of_invariant _ (supplied_step method_settles)
    (supplied_start OIPBlockingQueue.supply {}) ls
  have hguard := hsupplied.guarded method hwaiting
  cases method with
  | pop => rfl
  | push message => cases hguard
  | shutdown => cases hguard

/-- Without a supply the queue is empty and open. -/
theorem supply_eq_zero {q : OIPBlockingQueue} (h : q.supply = 0) : q = ⟨[], false⟩ := by
  obtain ⟨queue, stop⟩ := q
  cases stop <;> cases queue <;> simp_all [OIPBlockingQueue.supply]

/-- Wherever the calls stand, without new ones they make only so many steps; and when they make no
more, only `pop`s are left, and only while the queue is empty and not shut down. -/
theorem pop_waits (ls ls' : List (Monitor.Label Method))
    (hworking : Meets (Monitor.State.step Method.op) (Working Method.op) (calls ls).1 ls') :
    ls'.length ≤ (calls ls).1.effort Method.op + 3 * ls'.countP Monitor.Label.isWake ∧
      ((∃ i w, Goes Method.op (calls (ls ++ ls')).1 i w) ∨
        ∀ p ∈ (calls (ls ++ ls')).1.calls, (∃ method answer, p = .done method answer) ∨
          (p = .waiting .pop ∧ (calls (ls ++ ls')).1.data = ⟨[], false⟩)) := by
  refine ⟨length_le_effort Method.op hworking, ?_⟩
  by_cases hgoes : ∃ i w, Goes Method.op (calls (ls ++ ls')).1 i w
  · exact .inl hgoes
  · have hstuck : Stuck Method.op (calls (ls ++ ls')).1 := fun i w hi => hgoes ⟨i, w, hi⟩
    refine .inr fun p hp => ?_
    obtain hdone | ⟨method, rfl, hsupply⟩ := stuck_waiting method_settles {} (ls ++ ls') hstuck p hp
    · exact .inl hdone
    · exact .inr ⟨by rw [waiting_pop _ hp], supply_eq_zero hsupply⟩

/-- A `pop` waits, and the `push` that comes has locked: the queue is on its way. -/
theorem pop_waits_push :
    Meets (Monitor.State.step Method.op) (Working Method.op)
        (calls [.call .pop, .go 0 0, .go 0 0, .call (.push ['a']), .go 1 0]).1 [.go 1 0, .go 1 0] ∧
      ([.go 1 0, .go 1 0] : List (Monitor.Label Method)).length ≤
        (calls [.call .pop, .go 0 0, .go 0 0, .call (.push ['a']), .go 1 0]).1.effort Method.op := by
  have hworking : Meets (Monitor.State.step Method.op) (Working Method.op)
      (calls [.call .pop, .go 0 0, .go 0 0, .call (.push ['a']), .go 1 0]).1
      [.go 1 0, .go 1 0] :=
    ⟨⟨_, _, rfl, rfl, rfl⟩, ⟨_, _, rfl, rfl, rfl⟩, trivial⟩
  exact ⟨hworking, (pop_waits _ _ hworking).1⟩

/-! ## The queue of group names

The two threads use the queue through the methods in one go, as `fifo_run` allows. -/

universe u

variable {V : Type u}

/-- The queue of group names while `shutdown` has not been called. -/
def State.nameQueue (s : State V) : OIPBlockingQueue := { queue := s.tagGroupQueue }

/-- `queue_tag_group` is a push. -/
theorem queueTagGroup_push (s : State V) (name : CStr) :
    (s.queueTagGroup name).nameQueue = ((Method.push name).op.whole s.nameQueue).1 := rfl

/-- The pop of the work thread waits where `pop` does, and takes what it takes. -/
theorem workStep_pop {m : Machine V} (hwork : m.work = .pop) (handed : Handed) (polled : Polled) :
    m.workStep handed polled =
      if Method.pop.op.ready m.comms.nameQueue then
        { m with
          comms := { m.comms with
            tagGroupQueue := (Method.pop.op.whole m.comms.nameQueue).1.queue }
          work := .flush (Method.pop.op.whole m.comms.nameQueue).2.message
            ((Method.pop.op.whole m.comms.nameQueue).2.message = cleanupToken) }
      else m := by
  obtain ⟨comms, pushing, work⟩ := m
  simp only at hwork
  subst hwork
  cases hqueue : comms.tagGroupQueue with
  | nil =>
    have hnot : Method.pop.op.ready (State.nameQueue comms) = false := by
      simp [State.nameQueue, hqueue, Method.op, OIPBlockingQueue.pop, Op.ready]
    simp [Machine.workStep, hqueue, hnot]
  | cons name rest =>
    have hready : Method.pop.op.ready (State.nameQueue comms) = true := by
      simp [State.nameQueue, hqueue, Method.op, OIPBlockingQueue.pop, Op.ready]
    have hwhole : Method.pop.op.whole (State.nameQueue comms) =
        (⟨rest, false⟩, { message := name }) := by
      rw [State.nameQueue, hqueue, pop_whole_cons]
    simp [Machine.workStep, hqueue, hready, hwhole]

end OipComms.Comms
