import Mathlib.Algebra.GroupWithZero.Nat
import OipComms.Lib.Run

/-!
# Monitors

Data behind one mutex and one condition variable, and any number of calls on it at once. A call
locks the mutex, waits on the condition variable until its guard is true, makes its accesses to the
data, unlocks, and notifies one of the calls that wait, all of them, or none. A waiting call may
also wake up by itself.

A run is any interleaving of the steps of the calls. The sections between lock and unlock take effect
whole, in the order in which the calls unlock (`serialized_run`). Without new calls a run comes, after
a bounded number of steps (`length_le_effort`), to where no call can go on; then every call waits on
the condition variable or is done (`Stuck.places`).
-/

namespace OipComms.Monitor

open Run

universe u v w

/-- Whom a call notifies when it has unlocked. -/
inductive Signal
  | none
  | one
  | all
  deriving DecidableEq, Repr

/-- An operation: the guard it waits for, if it waits at all, its accesses to the data and to its own
variables, and its notification. -/
structure Op (σ : Type u) (ρ : Type v) where
  guard : Option (σ → Bool)
  body : List (σ × ρ → σ × ρ)
  start : ρ
  signal : Signal

/-- Where a call of the method `o` stands. -/
inductive Place (μ : Type w) (σ : Type u) (ρ : Type v)
  | locking (o : μ)
  | testing (o : μ)
  | waiting (o : μ)
  | woken (o : μ)
  | acting (o : μ) (rest : List (σ × ρ → σ × ρ)) (r : ρ)
  | signalling (o : μ) (r : ρ)
  | done (o : μ) (r : ρ)

/-- The data, the call that holds the mutex, and all calls made so far. -/
structure State (μ : Type w) (σ : Type u) (ρ : Type v) where
  data : σ
  holder : Option Nat
  calls : List (Place μ σ ρ)

/-- A new call, a step of call `i`, or a call that wakes up by itself. A step that notifies one wakes
call `w`. -/
inductive Label (μ : Type w)
  | call (o : μ)
  | go (i w : Nat)
  | wake (i : Nat)

variable {μ : Type w} {σ : Type u} {ρ : Type v} (ops : μ → Op σ ρ)

/-- The guard of an operation; one that does not wait is always ready. -/
def Op.ready (op : Op σ ρ) (d : σ) : Bool := (op.guard.map (· d)).getD true

/-- Accesses made one after the other. -/
def perform (body : List (σ × ρ → σ × ρ)) (x : σ × ρ) : σ × ρ := body.foldl (fun x a => a x) x

/-- An operation in one go. -/
def Op.whole (op : Op σ ρ) (d : σ) : σ × ρ := perform op.body (d, op.start)

/-- A call is notified. -/
def Place.roused : Place μ σ ρ → Place μ σ ρ
  | .waiting o => .woken o
  | p => p

def Place.isWaiting : Place μ σ ρ → Bool
  | .waiting _ => true
  | _ => false

/-- The call is between lock and unlock, and not waiting. -/
def Place.inside : Place μ σ ρ → Bool
  | .testing _ | .acting _ _ _ => true
  | _ => false

/-- What the next step of a call notifies. -/
def Place.signal : Place μ σ ρ → Signal
  | .signalling o _ => (ops o).signal
  | _ => .none

/-- The next step of call `i`, if it can make one. -/
def Place.next (i : Nat) (d : σ) (holder : Option Nat) :
    Place μ σ ρ → Option (Place μ σ ρ × σ × Option Nat)
  | .locking o | .woken o =>
    match holder with
    | none => some (.testing o, d, some i)
    | some _ => none
  | .testing o =>
    if (ops o).ready d then some (.acting o (ops o).body (ops o).start, d, holder)
    else some (.waiting o, d, none)
  | .acting o (a :: rest) r => some (.acting o rest (a (d, r)).2, (a (d, r)).1, holder)
  | .acting o [] r => some (.signalling o r, d, none)
  | .signalling o r => some (.done o r, d, holder)
  | .waiting _ | .done _ _ => none

/-- The calls after a notification. -/
def notify (calls : List (Place μ σ ρ)) (w : Nat) : Signal → List (Place μ σ ρ)
  | .none => calls
  | .one => calls.modify w Place.roused
  | .all => calls.map Place.roused

/-- Whoever notifies one wakes a call that waits, if any does. -/
def chosen (calls : List (Place μ σ ρ)) (w : Nat) : Signal → Bool
  | .one => !calls.any Place.isWaiting || (calls[w]?.map Place.isWaiting).getD false
  | _ => true

/-- A label whose call cannot make a step, or cannot wake whom it names, is no step. -/
def State.step (m : State μ σ ρ) : Label μ → State μ σ ρ
  | .call o => { m with calls := m.calls ++ [.locking o] }
  | .wake i => { m with calls := m.calls.modify i Place.roused }
  | .go i w =>
    match m.calls[i]? with
    | none => m
    | some p =>
      match p.next ops i m.data m.holder with
      | none => m
      | some (q, d, holder) =>
        if chosen m.calls w (p.signal ops) then
          { data := d, holder := holder, calls := (notify m.calls w (p.signal ops)).set i q }
        else m

/-- Nobody has called yet. -/
def State.start (d : σ) : State μ σ ρ := ⟨d, none, []⟩

/-! ## What one step does -/

/-- The steps of a call. -/
inductive Turn (i : Nat) (d : σ) (holder : Option Nat) :
    Place μ σ ρ → Place μ σ ρ → σ → Option Nat → Prop
  | lock (o : μ) (hfree : holder = none) :
    Turn i d holder (.locking o) (.testing o) d (some i)
  | relock (o : μ) (hfree : holder = none) :
    Turn i d holder (.woken o) (.testing o) d (some i)
  | pass (o : μ) (hready : (ops o).ready d = true) :
    Turn i d holder (.testing o) (.acting o (ops o).body (ops o).start) d holder
  | wait (o : μ) (hready : (ops o).ready d = false) :
    Turn i d holder (.testing o) (.waiting o) d none
  | access (o : μ) (a : σ × ρ → σ × ρ) (rest : List (σ × ρ → σ × ρ)) (r : ρ) :
    Turn i d holder (.acting o (a :: rest) r) (.acting o rest (a (d, r)).2) (a (d, r)).1 holder
  | unlock (o : μ) (r : ρ) : Turn i d holder (.acting o [] r) (.signalling o r) d none
  | signal (o : μ) (r : ρ) : Turn i d holder (.signalling o r) (.done o r) d holder

/-- What a call does next is one of its turns. -/
theorem turn_of_next {i : Nat} {d d' : σ} {holder holder' : Option Nat} {p q : Place μ σ ρ}
    (h : p.next ops i d holder = some (q, d', holder')) : Turn ops i d holder p q d' holder' := by
  cases p with
  | locking o =>
    cases holder with
    | none => cases h; exact .lock o rfl
    | some j => cases h
  | woken o =>
    cases holder with
    | none => cases h; exact .relock o rfl
    | some j => cases h
  | testing o =>
    rw [Place.next] at h
    cases hready : (ops o).ready d with
    | true =>
      rw [hready, if_pos rfl] at h
      cases h
      exact .pass o hready
    | false =>
      rw [hready, if_neg Bool.false_ne_true] at h
      cases h
      exact .wait o hready
  | acting o rest r =>
    cases rest with
    | nil => cases h; exact .unlock o r
    | cons a rest => cases h; exact .access o a rest r
  | signalling o r => cases h; exact .signal o r
  | waiting o => cases h
  | done o r => cases h

/-- Call `i` has a next step, and one that wakes `w` can be made. -/
def Goes (m : State μ σ ρ) (i w : Nat) : Prop :=
  ∃ p x, m.calls[i]? = some p ∧ p.next ops i m.data m.holder = some x ∧
    chosen m.calls w (p.signal ops) = true

/-- A step of a call, if it makes one. -/
theorem step_go (m : State μ σ ρ) (i w : Nat) :
    (m.step ops (.go i w) = m ∧ ¬ Goes ops m i w) ∨
      ∃ p q d holder, m.calls[i]? = some p ∧ Turn ops i m.data m.holder p q d holder ∧
        chosen m.calls w (p.signal ops) = true ∧
        m.step ops (.go i w) =
          { data := d, holder := holder, calls := (notify m.calls w (p.signal ops)).set i q } := by
  rw [State.step, Goes]
  cases hp : m.calls[i]? with
  | none => exact .inl ⟨rfl, fun ⟨p, x, h, _⟩ => by cases h⟩
  | some p =>
    cases hnext : p.next ops i m.data m.holder with
    | none =>
      refine .inl ⟨by simp only [hnext], fun ⟨p', x, h, hx, _⟩ => ?_⟩
      cases h
      rw [hnext] at hx
      cases hx
    | some x =>
      obtain ⟨q, d, holder⟩ := x
      cases hchosen : chosen m.calls w (p.signal ops) with
      | false =>
        refine .inl ⟨by simp only [hnext, hchosen, Bool.false_eq_true, if_false],
          fun ⟨p', x, h, _, hw⟩ => ?_⟩
        cases h
        rw [hchosen] at hw
        cases hw
      | true =>
        exact .inr ⟨p, q, d, holder, rfl, turn_of_next ops hnext, hchosen,
          by simp only [hnext, hchosen, if_true]⟩

/-! ## The places after a step -/

/-- Call `i` stands at a place with `P`. -/
def At (calls : List (Place μ σ ρ)) (i : Nat) (P : Place μ σ ρ → Prop) : Prop :=
  ∃ p, calls[i]? = some p ∧ P p

section
variable {P : Place μ σ ρ → Prop} {calls : List (Place μ σ ρ)}

/-- What is said of the place of a call is said of the place it has. -/
theorem at_iff_of_get {i : Nat} {p : Place μ σ ρ} (h : calls[i]? = some p) : At calls i P ↔ P p :=
  ⟨fun ⟨_, hp, hP⟩ => Option.some.inj (hp ▸ h) ▸ hP, fun hP => ⟨p, h, hP⟩⟩

theorem at_eq (i : Nat) (p : Place μ σ ρ) : At calls i (· = p) ↔ calls[i]? = some p :=
  ⟨fun ⟨_, hp, heq⟩ => heq ▸ hp, fun h => ⟨p, h, rfl⟩⟩

/-- A place that a call is at is among those of the calls. -/
theorem At.mem {i : Nat} (h : At calls i P) : ∃ p ∈ calls, P p :=
  let ⟨p, hp, hP⟩ := h
  ⟨p, List.mem_of_getElem? hp, hP⟩

/-- A place among those of the calls is the place of one. -/
theorem at_of_mem {p : Place μ σ ρ} (hp : p ∈ calls) (hP : P p) : ∃ i, At calls i P := by
  obtain ⟨i, hi⟩ := List.mem_iff_getElem?.mp hp
  exact ⟨i, p, hi, hP⟩

/-- A new call is at its lock, and the others are where they were. -/
theorem at_append (o : μ) (i : Nat) :
    At (calls ++ [.locking o]) i P ↔ At calls i P ∨ (i = calls.length ∧ P (.locking o)) := by
  rcases Nat.lt_trichotomy i calls.length with hlt | heq | hgt
  · rw [At, List.getElem?_append_left hlt]
    simp only [At, Nat.ne_of_lt hlt, false_and, or_false]
  · subst heq
    simp [At]
  · have hnone : (calls ++ [Place.locking o])[i]? = none := by simp; omega
    have hnone' : calls[i]? = none := by simp; omega
    simp only [At, hnone, hnone', reduceCtorEq, false_and, exists_false, false_or,
      Nat.ne_of_gt hgt]

/-- A call that is woken stays where it was, as far as a property does not tell. -/
theorem at_modify (hP : ∀ p, P p.roused ↔ P p) (w i : Nat) :
    At (calls.modify w Place.roused) i P ↔ At calls i P := by
  rw [At, At, List.getElem?_modify]
  cases calls[i]? with
  | none => simp
  | some p =>
    by_cases hw : w = i
    · simp [hw, hP]
    · simp [hw]

/-- What does not tell a notified call from one that waits is not changed by a notification. -/
theorem at_notify (hP : ∀ p, P p.roused ↔ P p) (w : Nat) (signal : Signal) (i : Nat) :
    At (notify calls w signal) i P ↔ At calls i P := by
  cases signal with
  | none => rfl
  | one => exact at_modify hP w i
  | all =>
    rw [notify, At, At, List.getElem?_map]
    cases calls[i]? with
    | none => simp
    | some p => simp [hP]

theorem length_notify (w : Nat) (signal : Signal) :
    (notify calls w signal).length = calls.length := by
  cases signal with
  | none => rfl
  | one => exact List.length_modify ..
  | all => exact List.length_map ..

/-- After its turn a call is where the turn takes it, whoever it notified. -/
theorem get_turn_self {i : Nat} {p : Place μ σ ρ} (hp : calls[i]? = some p) (w : Nat)
    (signal : Signal) (q : Place μ σ ρ) : ((notify calls w signal).set i q)[i]? = some q := by
  have hlt : i < (notify calls w signal).length := by
    rw [length_notify]
    exact (List.getElem?_eq_some_iff.mp hp).1
  exact List.getElem?_set_self hlt

/-- After its turn a call is where the turn takes it. -/
theorem at_turn_self {i : Nat} {p : Place μ σ ρ} (hp : calls[i]? = some p) (w : Nat) (signal : Signal)
    (q : Place μ σ ρ) : At ((notify calls w signal).set i q) i P ↔ P q :=
  at_iff_of_get (get_turn_self hp w signal q)

/-- The turn of a call leaves the others, but for those it wakes. -/
theorem at_turn_of_ne (hP : ∀ p, P p.roused ↔ P p) {i j : Nat} (hne : i ≠ j) (w : Nat)
    (signal : Signal) (q : Place μ σ ρ) :
    At ((notify calls w signal).set i q) j P ↔ At calls j P := by
  rw [At, List.getElem?_set_ne hne]
  exact at_notify hP w signal j

end

/-- A call that is woken does not come to hold the mutex by that. -/
theorem inside_roused (p : Place μ σ ρ) : p.roused.inside = true ↔ p.inside = true := by
  cases p <;> rfl

/-- A call that is woken is not in its section by that. -/
theorem acting_roused (o : μ) (rest : List (σ × ρ → σ × ρ)) (r : ρ) (p : Place μ σ ρ) :
    p.roused = .acting o rest r ↔ p = .acting o rest r := by
  cases p <;> simp [Place.roused]

/-! ## Exclusion -/

/-- The call that holds the mutex is the one inside. -/
def Exclusive (m : State μ σ ρ) : Prop :=
  ∀ i, m.holder = some i ↔ At m.calls i (·.inside = true)

theorem exclusive_start (d : σ) : Exclusive (State.start d : State μ σ ρ) := by
  intro i
  simp [State.start, At]

/-- Every step leaves one call at most between lock and unlock. -/
theorem exclusive_step (m : State μ σ ρ) (l : Label μ) (hm : Exclusive m) :
    Exclusive (m.step ops l) := by
  cases l with
  | call o =>
    intro i
    rw [State.step, at_append, ← hm i]
    simp [Place.inside]
  | wake i =>
    intro j
    rw [State.step, at_modify inside_roused]
    exact hm j
  | go i w =>
    obtain ⟨hsame, -⟩ | ⟨p, q, d, holder, hp, hturn, -, hstep⟩ := step_go ops m i w
    · rw [hsame]; exact hm
    · rw [hstep]
      intro j
      have hi := hm i
      rw [at_iff_of_get hp] at hi
      by_cases hij : i = j
      · subst hij
        simp only [at_turn_self hp]
        cases hturn with
        | lock o hfree | relock o hfree => simp [Place.inside]
        | pass o hready | access o a rest r => simpa [Place.inside] using hi
        | wait o hready | unlock o r => simp [Place.inside]
        | signal o r => simpa [Place.inside] using hi
      · have hj : At ((notify m.calls w (p.signal ops)).set i q) j (·.inside = true) ↔
            At m.calls j (·.inside = true) :=
          at_turn_of_ne inside_roused hij w (p.signal ops) q
        rw [hj, ← hm j]
        cases hturn with
        | lock o hfree | relock o hfree => simp [hfree, hij]
        | pass o hready | access o a rest r | signal o r => rfl
        | wait o hready | unlock o r =>
          have hholder : m.holder = some i := hi.mpr rfl
          simp [hholder, hij]

/-! ## Serialisation -/

/-- An operation that has unlocked, and its answer. -/
structure Commit (μ : Type w) (ρ : Type v) where
  call : Nat
  method : μ
  answer : ρ

/-- The data after operations made one after the other. -/
def after (d : σ) (h : List (Commit μ ρ)) : σ := h.foldl (fun d c => ((ops c.method).whole d).1) d

/-- Operations made one after the other: each is ready, and has the answer it then gives. -/
def Serial : σ → List (Commit μ ρ) → Prop
  | _, [] => True
  | d, c :: h => (ops c.method).ready d = true ∧ c.answer = ((ops c.method).whole d).2 ∧
    Serial ((ops c.method).whole d).1 h

/-- The operations in the order in which their calls unlock. -/
def noteCommit (m : State μ σ ρ) : Label μ → List (Commit μ ρ) → List (Commit μ ρ)
  | .go i _, h =>
    match m.calls[i]? with
    | some (.acting o [] r) => h ++ [⟨i, o, r⟩]
    | _ => h
  | _, h => h

/-- One more operation is made on what the others have left. -/
theorem after_concat (d : σ) (h : List (Commit μ ρ)) (c : Commit μ ρ) :
    after ops d (h ++ [c]) = ((ops c.method).whole (after ops d h)).1 := List.foldl_concat ..

/-- Two runs of operations are serial one after the other. -/
theorem serial_append (d : σ) (h h' : List (Commit μ ρ)) :
    Serial ops d (h ++ h') ↔ Serial ops d h ∧ Serial ops (after ops d h) h' := by
  induction h generalizing d with
  | nil => simp [Serial, after]
  | cons c h ih => simp [Serial, ih, after, and_assoc]

/-- One more operation is serial if its guard holds there and its answer is from there. -/
theorem serial_concat (d : σ) (h : List (Commit μ ρ)) (c : Commit μ ρ) :
    Serial ops d (h ++ [c]) ↔
      Serial ops d h ∧ (ops c.method).ready (after ops d h) = true ∧
        c.answer = ((ops c.method).whole (after ops d h)).2 := by
  simp [serial_append, Serial]

/-- The operation of a call has unlocked with this answer. -/
def Place.Finished (o : μ) (r : ρ) (p : Place μ σ ρ) : Prop :=
  p = .signalling o r ∨ p = .done o r

/-- A call that is woken is not done by that. -/
theorem finished_roused (o : μ) (r : ρ) (p : Place μ σ ρ) :
    p.roused.Finished o r ↔ p.Finished o r := by
  cases p <;> simp [Place.Finished, Place.roused]

/-- The data and the answers are those of the operations that have unlocked, made one after the
other, and of the section under way. -/
structure Serialized (d : σ) (m : State μ σ ρ) (h : List (Commit μ ρ)) : Prop where
  serial : Serial ops d h
  idle : (∀ (i : Nat) o rest r, m.calls[i]? ≠ some (.acting o rest r)) → m.data = after ops d h
  acting : ∀ (i : Nat) o rest r, m.calls[i]? = some (.acting o rest r) →
    (ops o).ready (after ops d h) = true ∧ perform rest (m.data, r) = (ops o).whole (after ops d h)
  committed : ∀ i o r, ⟨i, o, r⟩ ∈ h ↔ At m.calls i (Place.Finished o r)
  once : (h.map Commit.call).Nodup

theorem serialized_start (d : σ) : Serialized ops d (State.start d : State μ σ ρ) [] where
  serial := trivial
  idle _ := rfl
  acting i o rest r h := by simp [State.start] at h
  committed i o r := by simp [State.start, At]
  once := List.nodup_nil

variable {ops} in
/-- Calls that make no step leave what the others have done. -/
theorem Serialized.of_places {d : σ} {m m' : State μ σ ρ} {h : List (Commit μ ρ)}
    (hm : Serialized ops d m h) (hdata : m'.data = m.data)
    (hacting : ∀ (i : Nat) o rest r, m'.calls[i]? = some (.acting o rest r) ↔
      m.calls[i]? = some (.acting o rest r))
    (hfinished : ∀ i o r, At m'.calls i (Place.Finished o r) ↔ At m.calls i (Place.Finished o r)) :
    Serialized ops d m' h where
  serial := hm.serial
  idle hidle := by
    rw [hdata]
    exact hm.idle fun i o rest r hi => hidle i o rest r ((hacting i o rest r).mpr hi)
  acting i o rest r hi := by
    rw [hdata]
    exact hm.acting i o rest r ((hacting i o rest r).mp hi)
  committed i o r := by rw [hm.committed, hfinished]
  once := hm.once

/-- The turn of a call leaves the sections of the others. -/
theorem acting_turn_of_ne {calls : List (Place μ σ ρ)} {i j : Nat} (hne : i ≠ j) (w : Nat)
    (signal : Signal) (q : Place μ σ ρ) (o : μ) (rest : List (σ × ρ → σ × ρ)) (r : ρ) :
    ((notify calls w signal).set i q)[j]? = some (.acting o rest r) ↔
      calls[j]? = some (.acting o rest r) := by
  rw [← at_eq, ← at_eq]
  exact at_turn_of_ne (acting_roused o rest r) hne w signal q

/-- While a call is inside, no other acts. -/
theorem Exclusive.not_acting {m : State μ σ ρ} (hm : Exclusive m) {i j : Nat}
    (hi : At m.calls i (·.inside = true)) (hne : i ≠ j) (o : μ)
    (rest : List (σ × ρ → σ × ρ)) (r : ρ) : m.calls[j]? ≠ some (.acting o rest r) := by
  intro hj
  have hholder := (hm i).mpr hi
  rw [(hm j).mpr ⟨_, hj, rfl⟩] at hholder
  exact hne (Option.some.inj hholder).symm

/-- While the mutex is free, no call acts. -/
theorem Exclusive.not_acting_of_free {m : State μ σ ρ} (hm : Exclusive m) (hfree : m.holder = none)
    (j : Nat) (o : μ) (rest : List (σ × ρ → σ × ρ)) (r : ρ) :
    m.calls[j]? ≠ some (.acting o rest r) := by
  intro hj
  have hholder := (hm j).mpr ⟨_, hj, rfl⟩
  rw [hfree] at hholder
  cases hholder

variable {ops} in
/-- A step of a call that unlocks nothing and does not act leaves what is done. -/
theorem Serialized.of_turn {d : σ} {m : State μ σ ρ} {h : List (Commit μ ρ)} (hm : Serialized ops d m h)
    {i : Nat} {p q : Place μ σ ρ} (hp : m.calls[i]? = some p) (w : Nat) (signal : Signal)
    (holder : Option Nat)
    (hacting : ∀ o rest r, q = .acting o rest r ↔ p = .acting o rest r)
    (hfinished : ∀ o r, q.Finished o r ↔ p.Finished o r) :
    Serialized ops d ⟨m.data, holder, (notify m.calls w signal).set i q⟩ h := by
  refine hm.of_places rfl (fun j o rest r => ?_) (fun j o r => ?_)
  · by_cases hij : i = j
    · subst hij
      rw [← at_eq, ← at_eq, at_turn_self hp, at_iff_of_get hp]
      exact hacting o rest r
    · exact acting_turn_of_ne hij w signal q o rest r
  · by_cases hij : i = j
    · subst hij
      rw [at_turn_self hp, at_iff_of_get hp]
      exact hfinished o r
    · exact at_turn_of_ne (finished_roused o r) hij w signal q

variable {ops} in
/-- A call begins its section with the data of those before it. -/
theorem Serialized.pass {d : σ} {m : State μ σ ρ} {h : List (Commit μ ρ)} (hm : Serialized ops d m h)
    (hexclusive : Exclusive m) {i : Nat} {o : μ} (hp : m.calls[i]? = some (.testing o))
    (hready : (ops o).ready m.data = true) (w : Nat) (signal : Signal) :
    Serialized ops d
      ⟨m.data, m.holder, (notify m.calls w signal).set i (.acting o (ops o).body (ops o).start)⟩ h := by
  have hi : At m.calls i (·.inside = true) := ⟨_, hp, rfl⟩
  have hdata : m.data = after ops d h := by
    refine hm.idle fun j o' rest r hj => ?_
    by_cases hij : i = j
    · subst hij
      rw [hp] at hj
      cases hj
    · exact hexclusive.not_acting hi hij o' rest r hj
  have hself := get_turn_self hp w signal (Place.acting o (ops o).body (ops o).start)
  refine ⟨hm.serial, fun hidle => absurd hself (hidle i _ _ _), ?_, ?_,
    hm.once⟩
  · intro j o' rest r hj
    by_cases hij : i = j
    · subst hij
      rw [hself] at hj
      cases hj
      rw [← hdata]
      exact ⟨hready, rfl⟩
    · exact absurd ((acting_turn_of_ne hij w signal _ o' rest r).mp hj)
        (hexclusive.not_acting hi hij o' rest r)
  · intro j o' r
    rw [hm.committed]
    by_cases hij : i = j
    · subst hij
      rw [at_turn_self hp, at_iff_of_get hp]
      simp [Place.Finished]
    · exact (at_turn_of_ne (finished_roused o' r) hij w signal _).symm

variable {ops} in
/-- An access takes the section one step on. -/
theorem Serialized.access {d : σ} {m : State μ σ ρ} {h : List (Commit μ ρ)} (hm : Serialized ops d m h)
    (hexclusive : Exclusive m) {i : Nat} {o : μ} {a : σ × ρ → σ × ρ}
    {rest : List (σ × ρ → σ × ρ)} {r : ρ} (hp : m.calls[i]? = some (.acting o (a :: rest) r))
    (w : Nat) (signal : Signal) :
    Serialized ops d ⟨(a (m.data, r)).1, m.holder,
      (notify m.calls w signal).set i (.acting o rest (a (m.data, r)).2)⟩ h := by
  have hi : At m.calls i (·.inside = true) := ⟨_, hp, rfl⟩
  have hself := get_turn_self hp w signal (Place.acting o rest (a (m.data, r)).2)
  refine ⟨hm.serial, fun hidle => absurd hself (hidle i _ _ _), ?_, ?_,
    hm.once⟩
  · intro j o' rest' r' hj
    by_cases hij : i = j
    · subst hij
      rw [hself] at hj
      cases hj
      exact hm.acting i o (a :: rest) r hp
    · exact absurd ((acting_turn_of_ne hij w signal _ o' rest' r').mp hj)
        (hexclusive.not_acting hi hij o' rest' r')
  · intro j o' r'
    rw [hm.committed]
    by_cases hij : i = j
    · subst hij
      rw [at_turn_self hp, at_iff_of_get hp]
      simp [Place.Finished]
    · exact (at_turn_of_ne (finished_roused o' r') hij w signal _).symm

variable {ops} in
/-- A call that unlocks has done its whole operation. -/
theorem Serialized.unlock {d : σ} {m : State μ σ ρ} {h : List (Commit μ ρ)} (hm : Serialized ops d m h)
    (hexclusive : Exclusive m) {i : Nat} {o : μ} {r : ρ}
    (hp : m.calls[i]? = some (.acting o [] r)) (w : Nat) (signal : Signal) :
    Serialized ops d ⟨m.data, none, (notify m.calls w signal).set i (.signalling o r)⟩
      (h ++ [⟨i, o, r⟩]) := by
  have hi : At m.calls i (·.inside = true) := ⟨_, hp, rfl⟩
  obtain ⟨hready, hwhole⟩ := hm.acting i o [] r hp
  have hdata : (m.data, r) = (ops o).whole (after ops d h) := hwhole
  have hself := get_turn_self hp w signal (Place.signalling o r)
  have hnone : ∀ (j : Nat) o' rest' r',
      ((notify m.calls w signal).set i (.signalling o r))[j]? ≠ some (.acting o' rest' r') := by
    intro j o' rest' r' hj
    by_cases hij : i = j
    · subst hij
      rw [hself] at hj
      cases hj
    · exact hexclusive.not_acting hi hij o' rest' r'
        ((acting_turn_of_ne hij w signal _ o' rest' r').mp hj)
  refine ⟨?_, fun _ => ?_, fun j o' rest' r' hj => absurd hj (hnone j o' rest' r'), ?_, ?_⟩
  · rw [serial_concat ops, ← hdata]
    exact ⟨hm.serial, hready, rfl⟩
  · rw [after_concat ops, ← hdata]
  · intro j o' r'
    rw [List.mem_append, List.mem_singleton, hm.committed]
    by_cases hij : i = j
    · subst hij
      rw [at_turn_self hp, at_iff_of_get hp]
      simp [Place.Finished, eq_comm]
    · rw [at_turn_of_ne (finished_roused o' r') hij w signal]
      simp [Ne.symm hij]
  · have hfresh : ∀ c ∈ h, c.call ≠ i := by
      rintro ⟨j, o', r'⟩ hmem rfl
      have hfinished := (hm.committed j o' r').mp hmem
      rw [at_iff_of_get hp] at hfinished
      simp [Place.Finished] at hfinished
    rw [List.map_append, List.nodup_append]
    refine ⟨hm.once, by simp, fun c hc c' hc' heq => ?_⟩
    obtain ⟨c, hmem, rfl⟩ := List.mem_map.mp hc
    rw [List.map_singleton, List.mem_singleton] at hc'
    exact hfresh c hmem (heq.trans hc')

/-- A step that is none commits nothing. -/
theorem noteCommit_of_stays {m : State μ σ ρ} {i w : Nat} (hstays : ¬ Goes ops m i w)
    (h : List (Commit μ ρ)) : noteCommit m (.go i w) h = h := by
  rw [noteCommit]
  split
  · rename_i o r hp
    exact absurd ⟨_, _, hp, rfl, rfl⟩ hstays
  · rfl

/-- The mutex excludes, and the sections are made one after the other. -/
def Sound (d : σ) (x : State μ σ ρ × List (Commit μ ρ)) : Prop :=
  Exclusive x.1 ∧ Serialized ops d x.1 x.2

theorem sound_start (d : σ) : Sound ops d ((State.start d : State μ σ ρ), []) :=
  ⟨exclusive_start d, serialized_start ops d⟩

/-- Every step keeps the mutex exclusive and the operations serial. -/
theorem sound_step (d : σ) (x : State μ σ ρ × List (Commit μ ρ)) (l : Label μ) (hx : Sound ops d x) :
    Sound ops d (watch (State.step ops) noteCommit x l) := by
  obtain ⟨m, h⟩ := x
  obtain ⟨hexclusive, hm⟩ := hx
  refine ⟨exclusive_step ops m l hexclusive, ?_⟩
  simp only [watch]
  cases l with
  | call o =>
    refine hm.of_places rfl (fun i o' rest r => ?_) (fun i o' r => ?_)
    · rw [← at_eq, ← at_eq, State.step, at_append]
      simp
    · rw [State.step, at_append]
      simp [Place.Finished]
  | wake i =>
    refine hm.of_places rfl (fun j o rest r => ?_) (fun j o r => ?_)
    · rw [← at_eq, ← at_eq, State.step, at_modify (acting_roused o rest r)]
    · exact at_modify (finished_roused o r) i j
  | go i w =>
    obtain ⟨hsame, hstays⟩ | ⟨p, q, d', holder, hp, hturn, -, hstep⟩ := step_go ops m i w
    · rw [hsame, noteCommit_of_stays ops hstays]
      exact hm
    · rw [hstep]
      cases hturn with
      | lock o hfree | relock o hfree =>
        simp only [noteCommit, hp]
        exact hm.of_turn hp w _ _ (by simp) (by simp [Place.Finished])
      | pass o hready =>
        simp only [noteCommit, hp]
        exact hm.pass hexclusive hp hready w _
      | wait o hready =>
        simp only [noteCommit, hp]
        exact hm.of_turn hp w _ _ (by simp) (by simp [Place.Finished])
      | access o a rest r =>
        simp only [noteCommit, hp]
        exact hm.access hexclusive hp w _
      | unlock o r =>
        simp only [noteCommit, hp]
        exact hm.unlock hexclusive hp w _
      | signal o r =>
        simp only [noteCommit, hp]
        exact hm.of_turn hp w _ _ (by simp) (by simp [Place.Finished])

/-- Whatever the interleaving, the sections are made whole, in the order in which they unlock. -/
theorem serialized_run (d : σ) (ls : List (Label μ)) :
    Sound ops d (run (watch (State.step ops) noteCommit) (State.start d, []) ls) :=
  run_of_invariant _ (sound_step ops d) (sound_start ops d) ls

/-! ## Progress -/

/-- A sum over all calls. -/
def total (f : Place μ σ ρ → Nat) (calls : List (Place μ σ ρ)) : Nat := (calls.map f).sum

/-- A sum over the calls changes by what the place of one changes it. -/
theorem total_set (f : Place μ σ ρ → Nat) {calls : List (Place μ σ ρ)} {i : Nat} {p : Place μ σ ρ}
    (hp : calls[i]? = some p) (q : Place μ σ ρ) :
    total f (calls.set i q) + f p = total f calls + f q := by
  induction calls generalizing i with
  | nil => simp at hp
  | cons p' calls ih =>
    cases i with
    | zero =>
      cases hp
      simp only [total, List.set_cons_zero, List.map_cons, List.sum_cons]
      omega
    | succ i =>
      have htail := ih hp
      simp only [total, List.set_cons_succ, List.map_cons, List.sum_cons] at htail ⊢
      omega

/-- A new call adds its part. -/
theorem total_append (f : Place μ σ ρ → Nat) (calls : List (Place μ σ ρ)) (p : Place μ σ ρ) :
    total f (calls ++ [p]) = total f calls + f p := by
  simp [total]

/-- A call that is woken changes the sum by its part. -/
theorem total_modify (f : Place μ σ ρ → Nat) {calls : List (Place μ σ ρ)} {i : Nat} {p : Place μ σ ρ}
    (hp : calls[i]? = some p) :
    total f (calls.modify i Place.roused) + f p = total f calls + f p.roused := by
  induction calls generalizing i with
  | nil => simp at hp
  | cons p' calls ih =>
    cases i with
    | zero =>
      cases hp
      simp only [total, List.modify_zero_cons, List.map_cons, List.sum_cons]
      omega
    | succ i =>
      have htail := ih hp
      simp only [total, List.modify_succ_cons, List.map_cons, List.sum_cons] at htail ⊢
      omega

/-- One wake-up adds at most what it may add to a call. -/
theorem total_modify_le (f : Place μ σ ρ → Nat) {k : Nat} (hf : ∀ p, f p.roused ≤ f p + k)
    (calls : List (Place μ σ ρ)) (i : Nat) :
    total f (calls.modify i Place.roused) ≤ total f calls + k := by
  cases hp : calls[i]? with
  | none =>
    rw [List.modify_eq_self (List.getElem?_eq_none_iff.mp hp)]
    exact Nat.le_add_right _ _
  | some p =>
    have hmodify := total_modify f hp
    have hle := hf p
    omega

/-- One wake-up takes nothing away if it takes nothing from a call. -/
theorem total_le_modify (f : Place μ σ ρ → Nat) (hf : ∀ p, f p ≤ f p.roused)
    (calls : List (Place μ σ ρ)) (i : Nat) :
    total f calls ≤ total f (calls.modify i Place.roused) := by
  cases hp : calls[i]? with
  | none =>
    exact Nat.le_of_eq (by rw [List.modify_eq_self (List.getElem?_eq_none_iff.mp hp)])
  | some p =>
    have hmodify := total_modify f hp
    have hle := hf p
    omega

/-- Waking all adds at most what it may add to each call. -/
theorem total_map_le (f : Place μ σ ρ → Nat) {k : Nat} (hf : ∀ p, f p.roused ≤ f p + k)
    (calls : List (Place μ σ ρ)) :
    total f (calls.map Place.roused) ≤ total f calls + k * calls.length := by
  induction calls with
  | nil => simp [total]
  | cons p calls ih =>
    have hp := hf p
    simp only [total, List.map_cons, List.sum_cons, List.length_cons, Nat.mul_add,
      Nat.mul_one] at ih ⊢
    omega

/-- No call can go on. -/
def Stuck (m : State μ σ ρ) : Prop := ∀ i w, ¬ Goes ops m i w

/-- There is always a call that a notification may wake, or none it has to. -/
theorem exists_chosen (calls : List (Place μ σ ρ)) (signal : Signal) :
    ∃ w, chosen calls w signal = true := by
  cases signal with
  | none | all => exact ⟨0, rfl⟩
  | one =>
    cases hany : calls.any Place.isWaiting with
    | false => exact ⟨0, by simp [chosen, hany]⟩
    | true =>
      obtain ⟨p, hp, hwaiting⟩ := List.any_eq_true.mp hany
      obtain ⟨w, hw⟩ := List.mem_iff_getElem?.mp hp
      exact ⟨w, by simp [chosen, hw, hwaiting]⟩

variable {ops} in
/-- Where no call can go on, none has a next step. -/
theorem Stuck.next_eq_none {m : State μ σ ρ} (hm : Stuck ops m) {i : Nat} {p : Place μ σ ρ}
    (hp : m.calls[i]? = some p) : p.next ops i m.data m.holder = none := by
  obtain ⟨w, hw⟩ := exists_chosen m.calls (p.signal ops)
  cases hnext : p.next ops i m.data m.holder with
  | none => rfl
  | some x => exact absurd ⟨p, x, hp, hnext, hw⟩ (hm i w)

variable {ops} in
/-- Nobody is stuck for the mutex: once no call can go on it is free, and every call waits or is
done. -/
theorem Stuck.places {m : State μ σ ρ} (hm : Stuck ops m) (hexclusive : Exclusive m) :
    m.holder = none ∧
      ∀ p ∈ m.calls, (∃ o, p = .waiting o) ∨ ∃ o r, p = .done o r := by
  have hfree : m.holder = none := by
    cases hholder : m.holder with
    | none => rfl
    | some i =>
      obtain ⟨p, hp, hinside⟩ := (hexclusive i).mp hholder
      have hnext := hm.next_eq_none hp
      cases p with
      | testing o =>
        rw [Place.next] at hnext
        split at hnext <;> cases hnext
      | acting o rest r => cases rest <;> cases hnext
      | locking o | waiting o | woken o => cases hinside
      | signalling o r | done o r => cases hinside
  refine ⟨hfree, fun p hp => ?_⟩
  obtain ⟨i, hi⟩ := List.mem_iff_getElem?.mp hp
  have hnext := hm.next_eq_none hi
  rw [hfree] at hnext
  cases p with
  | waiting o => exact .inl ⟨o, rfl⟩
  | done o r => exact .inr ⟨o, r, rfl⟩
  | locking o | woken o | signalling o r => cases hnext
  | testing o =>
    rw [Place.next] at hnext
    split at hnext <;> cases hnext
  | acting o rest r => cases rest <;> cases hnext

/-- The steps a notification gives those it wakes: to lock again, and to find the guard false. -/
def Signal.effort (n : Nat) : Signal → Nat
  | .none => 0
  | .one => 2
  | .all => 2 * n

/-- The steps from a true guard on. -/
def Op.effort (n : Nat) (op : Op σ ρ) : Nat := op.body.length + 2 + op.signal.effort n

/-- The steps a call may still make, and cause others to make, when there are `n` calls. -/
def Place.effort (n : Nat) : Place μ σ ρ → Nat
  | .locking o | .woken o => (ops o).effort n + 2
  | .testing o => (ops o).effort n + 1
  | .waiting o => (ops o).effort n
  | .acting o rest _ => rest.length + 2 + (ops o).signal.effort n
  | .signalling o _ => 1 + (ops o).signal.effort n
  | .done _ _ => 0

def State.effort (m : State μ σ ρ) : Nat := total (Place.effort ops m.calls.length) m.calls

/-- A wake-up costs a call two steps more. -/
theorem effort_roused_le (n : Nat) (p : Place μ σ ρ) :
    p.roused.effort ops n ≤ p.effort ops n + 2 := by
  cases p <;> simp [Place.roused, Place.effort]

/-- A notification costs what it wakes. -/
theorem total_notify_le (calls : List (Place μ σ ρ)) (w : Nat) (signal : Signal) :
    total (Place.effort ops calls.length) (notify calls w signal) ≤
      total (Place.effort ops calls.length) calls + signal.effort calls.length := by
  cases signal with
  | none => exact Nat.le_refl _
  | one => exact total_modify_le _ (effort_roused_le ops _) calls w
  | all => exact total_map_le _ (effort_roused_le ops _) calls

/-- A call that does not wait is left by a notification. -/
theorem get_notify {i : Nat} {calls : List (Place μ σ ρ)} {p : Place μ σ ρ} (hp : calls[i]? = some p)
    (hroused : p.roused = p) (w : Nat) (signal : Signal) :
    (notify calls w signal)[i]? = some p := by
  cases signal with
  | none => exact hp
  | one =>
    rw [notify, List.getElem?_modify, hp]
    by_cases hw : w = i
    · simp [hw, hroused]
    · simp [hw]
  | all => rw [notify, List.getElem?_map, hp, Option.map_some, hroused]

section
variable {i : Nat} {d d' : σ} {holder holder' : Option Nat} {p q : Place μ σ ρ}

/-- A call that makes a step is not one that a notification changes. -/
theorem Turn.roused (h : Turn ops i d holder p q d' holder') : p.roused = p := by
  cases h <;> rfl

variable {ops} in
/-- A step takes off more than it gives to others. -/
theorem Turn.effort_lt (h : Turn ops i d holder p q d' holder') (n : Nat) :
    q.effort ops n + (p.signal ops).effort n < p.effort ops n := by
  cases h with
  | lock o hfree | relock o hfree =>
    simp only [Place.effort, Place.signal, Signal.effort]
    omega
  | pass o hready | wait o hready =>
    simp only [Place.effort, Place.signal, Signal.effort, Op.effort]
    omega
  | access o a rest r =>
    simp only [Place.effort, Place.signal, Signal.effort, List.length_cons]
    omega
  | unlock o r =>
    simp only [Place.effort, Place.signal, Signal.effort, List.length_nil]
    omega
  | signal o r =>
    simp only [Place.effort, Place.signal]
    omega

end

/-- A step of a call takes from the effort. -/
theorem goes_step {m : State μ σ ρ} {i w : Nat} (h : Goes ops m i w) :
    (m.step ops (.go i w)).effort ops < m.effort ops := by
  obtain ⟨-, hstays⟩ | ⟨p, q, d, holder, hp, hturn, -, hstep⟩ := step_go ops m i w
  · exact absurd h hstays
  · rw [hstep]
    simp only [State.effort, List.length_set, length_notify]
    have hset := total_set (Place.effort ops m.calls.length)
      (get_notify hp hturn.roused w (p.signal ops)) q
    have hnotify := total_notify_le ops m.calls w (p.signal ops)
    have hlt := hturn.effort_lt m.calls.length
    omega

/-- A spurious wake-up adds two steps at most. -/
theorem wake_step (m : State μ σ ρ) (i : Nat) : (m.step ops (.wake i)).effort ops ≤ m.effort ops + 2 := by
  simp only [State.step, State.effort, List.length_modify]
  exact total_modify_le _ (effort_roused_le ops _) m.calls i

/-- The steps of a run without new calls, all of them made. -/
def Working (m : State μ σ ρ) : Label μ → Prop
  | .call _ => False
  | .go i w => Goes ops m i w
  | .wake _ => True

def Label.isWake : Label μ → Bool
  | .wake _ => true
  | _ => false

/-- Without new calls only so many steps can be made, and two more for each call that wakes up by
itself. -/
theorem length_le_effort {m : State μ σ ρ} {ls : List (Label μ)}
    (h : Meets (State.step ops) (Working ops) m ls) :
    ls.length ≤ m.effort ops + 3 * ls.countP Label.isWake := by
  induction ls generalizing m with
  | nil => exact Nat.zero_le _
  | cons l ls ih =>
    have hrest := ih h.2
    cases l with
    | call o => exact h.1.elim
    | go i w =>
      have hlt := goes_step ops h.1
      rw [List.length_cons, List.countP_cons_of_neg Bool.false_ne_true]
      omega
    | wake i =>
      have hle := wake_step ops m i
      rw [List.length_cons, List.countP_cons_of_pos rfl]
      omega

end OipComms.Monitor
