import Mathlib.Data.ENat.Basic
import OipComms.Lib.Monitor

/-!
# No wake-up is lost

What the data of a monitor can let through is its supply: the number of calls whose guard it would
make true one after the other. An operation settles with the supply when it waits exactly while there
is none, takes one if it waits, and wakes one if it adds one, or wakes all.

Where every operation does, a call that waits is covered: there is no more supply than there are
calls on their way to it, or about to wake one that waits, unless all are about to be woken
(`covered_step`). So no call is left waiting with its guard true (`stuck_waiting`).
-/

namespace OipComms.Monitor

open Run

universe u v w

variable {μ : Type w} {σ : Type u} {ρ : Type v} (ops : μ → Op σ ρ)

/-- A call that may yet take from the supply, or wake one that does. -/
def Place.token : Place μ σ ρ → Nat
  | .woken o | .testing o | .acting o _ _ => (ops o).guard.isSome.toNat
  | .signalling o _ => ((ops o).signal = .one : Bool).toNat
  | _ => 0

/-- The call is about to notify all. -/
def Place.rousing : Place μ σ ρ → Bool
  | .signalling o _ => (ops o).signal = .all
  | _ => false

/-- How an operation stands to a supply, the number of calls that the data can let through: it waits
while there is none, takes one if it waits, and wakes one if it adds one, or all. -/
structure Op.Settles (supply : σ → ℕ∞) (op : Op σ ρ) : Prop where
  waits : ∀ g, op.guard = some g → ∀ d, g d = true ↔ supply d ≠ 0
  keeps : op.signal = .all ∨ ∀ d, op.ready d = true →
    supply (op.whole d).1 + op.guard.isSome.toNat ≤ supply d + (op.signal = .one : Bool).toNat

/-- Whoever waits has a call that will wake it, or there is no more supply than calls that will take
it or wake one. -/
def Covered (supply : σ → ℕ∞) (d : σ) (x : State μ σ ρ × List (Commit μ ρ)) : Prop :=
  (∀ p ∈ x.1.calls, p.isWaiting = false) ∨ (∃ p ∈ x.1.calls, p.rousing ops = true) ∨
    supply (after ops d x.2) ≤ total (Place.token ops) x.1.calls

structure Supplied (supply : σ → ℕ∞) (d : σ) (x : State μ σ ρ × List (Commit μ ρ)) : Prop where
  sound : Sound ops d x
  guarded : ∀ o, .waiting o ∈ x.1.calls → (ops o).guard.isSome = true
  covered : Covered ops supply d x

variable {ops}

/-- A notification wakes who waits, and changes nothing else. -/
theorem mem_roused {calls : List (Place μ σ ρ)} {p p' : Place μ σ ρ} (hp' : p' ∈ calls)
    (h : p = p' ∨ p = p'.roused) : p ∈ calls ∨ ∃ o, p = .woken o ∧ .waiting o ∈ calls := by
  obtain rfl | rfl := h
  · exact .inl hp'
  · cases p' with
    | waiting o => exact .inr ⟨o, rfl, hp'⟩
    | locking o | testing o | woken o => exact .inl hp'
    | acting o rest r => exact .inl hp'
    | signalling o r | done o r => exact .inl hp'

/-- A call after a wake-up is where it was, or was waiting. -/
theorem mem_modify {calls : List (Place μ σ ρ)} {w : Nat} {p : Place μ σ ρ}
    (hp : p ∈ calls.modify w Place.roused) :
    p ∈ calls ∨ ∃ o, p = .woken o ∧ .waiting o ∈ calls := by
  obtain ⟨j, hj⟩ := List.mem_iff_getElem?.mp hp
  rw [List.getElem?_modify] at hj
  cases hcall : calls[j]? with
  | none => rw [hcall] at hj; cases hj
  | some p' =>
    rw [hcall] at hj
    refine mem_roused (List.mem_of_getElem? hcall) ?_
    by_cases hw : w = j
    · simp only [hw, if_true, Option.map_eq_map, Option.map_some] at hj
      exact .inr (Option.some.inj hj).symm
    · simp only [hw, if_false, Option.map_eq_map, Option.map_some] at hj
      exact .inl (Option.some.inj hj).symm

/-- A call after a notification is where it was, or was waiting. -/
theorem mem_notify {calls : List (Place μ σ ρ)} {w : Nat} {signal : Signal} {p : Place μ σ ρ}
    (hp : p ∈ notify calls w signal) :
    p ∈ calls ∨ ∃ o, p = .woken o ∧ .waiting o ∈ calls := by
  cases signal with
  | none => exact .inl hp
  | one => exact mem_modify hp
  | all =>
    obtain ⟨p', hp', rfl⟩ := List.mem_map.mp hp
    exact mem_roused hp' (.inr rfl)

/-- Who waits after a step has waited before it, or is the call that made it. -/
theorem waiting_of_mem_turn {calls : List (Place μ σ ρ)} {w i : Nat} {signal : Signal}
    {q : Place μ σ ρ} {o : μ} (hp : .waiting o ∈ (notify calls w signal).set i q) :
    .waiting o ∈ calls ∨ q = .waiting o := by
  rcases List.mem_or_eq_of_mem_set hp with hmem | heq
  · rcases mem_notify hmem with hcall | ⟨o', hwoken, -⟩
    · exact .inl hcall
    · cases hwoken
  · exact .inr heq.symm

/-- A call that is woken rouses as it did. -/
theorem rousing_roused (p : Place μ σ ρ) : p.roused.rousing ops = true ↔ p.rousing ops = true := by
  cases p <;> rfl

/-- A call that is woken has no fewer tokens. -/
theorem token_le_roused (p : Place μ σ ρ) : p.token ops ≤ p.roused.token ops := by
  cases p <;> simp [Place.roused, Place.token]

/-- An operation that has to wait has a guard. -/
theorem Op.guarded_of_not_ready {op : Op σ ρ} {d : σ} (hready : op.ready d = false) :
    op.guard.isSome = true := by
  cases hguard : op.guard with
  | none => rw [Op.ready, hguard] at hready; cases hready
  | some g => rfl

/-- An operation that is not ready has no supply. -/
theorem Op.Settles.supply_eq_zero {supply : σ → ℕ∞} {op : Op σ ρ} (hop : op.Settles supply) {d : σ}
    (hready : op.ready d = false) : supply d = 0 := by
  cases hguard : op.guard with
  | none => rw [Op.ready, hguard] at hready; cases hready
  | some g =>
    have hg : g d = false := by rwa [Op.ready, hguard] at hready
    by_contra hne
    rw [(hop.waits g hguard d).mpr hne] at hg
    cases hg

/-- A call about to notify all is still there after a step of another. -/
theorem rousing_turn {calls : List (Place μ σ ρ)} {i : Nat} {p : Place μ σ ρ} (hp : calls[i]? = some p)
    (hquiet : p.rousing ops = false) (w : Nat) (signal : Signal) (q : Place μ σ ρ)
    (h : ∃ p ∈ calls, p.rousing ops = true) :
    ∃ p ∈ (notify calls w signal).set i q, p.rousing ops = true := by
  obtain ⟨p', hp', hrousing⟩ := h
  obtain ⟨j, hj⟩ := at_of_mem (P := (·.rousing ops = true)) hp' hrousing
  have hne : i ≠ j := by
    rintro rfl
    rw [at_iff_of_get hp, hquiet] at hj
    cases hj
  exact ((at_turn_of_ne (P := (·.rousing ops = true)) rousing_roused hne w signal q).mpr hj).mem

section
variable {supply : σ → ℕ∞} {d : σ} {m : State μ σ ρ} {h : List (Commit μ ρ)}

/-- A step that neither waits, unlocks nor notifies leaves whoever waits covered. -/
theorem Covered.silent (hm : Covered ops supply d (m, h)) {i : Nat} {p q : Place μ σ ρ}
    (hp : m.calls[i]? = some p) (hquiet : p.rousing ops = false) (hq : q.isWaiting = false)
    (htoken : p.token ops ≤ q.token ops) (d' : σ) (holder : Option Nat) :
    Covered ops supply d (⟨d', holder, m.calls.set i q⟩, h) := by
  obtain hnone | hrousing | hle := hm
  · refine .inl fun p' hp' => ?_
    rcases List.mem_or_eq_of_mem_set hp' with hmem | rfl
    · exact hnone p' hmem
    · exact hq
  · exact .inr (.inl (rousing_turn hp hquiet 0 .none q hrousing))
  · have hset := total_set (Place.token ops) hp q
    have hmono : total (Place.token ops) m.calls ≤ total (Place.token ops) (m.calls.set i q) := by omega
    exact .inr (.inr (hle.trans (Nat.cast_le.mpr hmono)))

/-- A call that unlocks adds no more to the supply than it will notify. -/
theorem Covered.unlock (hm : Covered ops supply d (m, h)) {i : Nat} {o : μ} {r : ρ}
    (hop : (ops o).Settles supply) (hready : (ops o).ready (after ops d h) = true)
    (hp : m.calls[i]? = some (.acting o [] r)) (d' : σ) (holder : Option Nat) :
    Covered ops supply d
      (⟨d', holder, m.calls.set i (.signalling o r)⟩, h ++ [⟨i, o, r⟩]) := by
  obtain hnone | hrousing | hle := hm
  · refine .inl fun p' hp' => ?_
    rcases List.mem_or_eq_of_mem_set hp' with hmem | rfl
    · exact hnone p' hmem
    · rfl
  · exact .inr (.inl (rousing_turn hp rfl 0 .none _ hrousing))
  · rcases hop.keeps with hall | hkeeps
    · have hmem := List.mem_of_getElem? (get_turn_self hp 0 .none (Place.signalling o r))
      exact .inr (.inl ⟨_, hmem, by simp [Place.rousing, hall]⟩)
    · have hset := total_set (Place.token ops) hp (Place.signalling o r)
      have hsupply := hkeeps (after ops d h) hready
      refine .inr (.inr ?_)
      rw [after_concat ops, ← ENat.add_le_add_iff_right (ENat.natCast_ne_top (ops o).guard.isSome.toNat)]
      calc supply ((ops o).whole (after ops d h)).1 + (ops o).guard.isSome.toNat
          ≤ supply (after ops d h) + ((ops o).signal = .one : Bool).toNat := hsupply
        _ ≤ total (Place.token ops) m.calls + ((ops o).signal = .one : Bool).toNat := by gcongr
        _ = total (Place.token ops) (m.calls.set i (.signalling o r)) + (ops o).guard.isSome.toNat := by
          simp only [Place.token] at hset
          exact_mod_cast hset.symm

/-- Who is chosen waits, if any call does. -/
theorem waiting_of_chosen {calls : List (Place μ σ ρ)} {w : Nat} (h : chosen calls w .one = true)
    (hany : calls.any Place.isWaiting = true) : ∃ o, calls[w]? = some (.waiting o) := by
  rw [chosen, hany] at h
  cases hw : calls[w]? with
  | none => rw [hw] at h; cases h
  | some p =>
    rw [hw] at h
    cases p with
    | waiting o => exact ⟨o, rfl⟩
    | locking o | testing o | woken o => cases h
    | acting o rest r => cases h
    | signalling o r | done o r => cases h

/-- A notification wakes someone, if anyone waits. -/
theorem Covered.signal (hm : Covered ops supply d (m, h))
    (hguarded : ∀ o, .waiting o ∈ m.calls → (ops o).guard.isSome = true) {i w : Nat} {o : μ}
    {r : ρ} (hp : m.calls[i]? = some (.signalling o r)) (hchosen : chosen m.calls w (ops o).signal = true)
    (d' : σ) (holder : Option Nat) :
    Covered ops supply d (⟨d', holder, (notify m.calls w (ops o).signal).set i (.done o r)⟩, h) := by
  cases hsignal : (ops o).signal with
  | none => exact hm.silent hp (by simp [Place.rousing, hsignal]) rfl (by simp [Place.token, hsignal]) ..
  | all =>
    refine .inl fun p' hp' => ?_
    rcases List.mem_or_eq_of_mem_set hp' with hmem | rfl
    · obtain ⟨p, -, rfl⟩ := List.mem_map.mp hmem
      cases p <;> rfl
    · rfl
  | one =>
    rw [hsignal] at hchosen
    cases hany : m.calls.any Place.isWaiting with
    | false =>
      refine .inl fun p' hp' => ?_
      cases p' with
      | waiting o' =>
        rcases waiting_of_mem_turn hp' with hmem | heq
        · exact absurd rfl (List.any_eq_false.mp hany _ hmem)
        · cases heq
      | locking o | testing o | woken o => rfl
      | acting o rest r => rfl
      | signalling o r | done o r => rfl
    | true =>
      obtain ⟨o', hw⟩ := waiting_of_chosen hchosen hany
      have hop' := hguarded o' (List.mem_of_getElem? hw)
      obtain hnone | hrousing | hle := hm
      · obtain ⟨p', hp', hwaiting⟩ := List.any_eq_true.mp hany
        rw [hnone p' hp'] at hwaiting
        cases hwaiting
      · exact .inr (.inl (rousing_turn hp (by simp [Place.rousing, hsignal]) w .one _ hrousing))
      · have hmodify := total_modify (Place.token ops) hw
        have hset := total_set (Place.token ops) (get_notify hp rfl w .one) (Place.done o r)
        simp only [Place.token, Place.roused, hop', hsignal, notify] at hmodify hset
        have heq : total (Place.token ops) ((notify m.calls w .one).set i (.done o r)) =
            total (Place.token ops) m.calls := by
          simp only [notify]
          simp at hmodify hset
          omega
        exact .inr (.inr (hle.trans (Nat.cast_le.mpr heq.ge)))

end

/-- At first the supply is what the data has. -/
theorem supplied_start (supply : σ → ℕ∞) (d : σ) :
    Supplied ops supply d ((State.start d : State μ σ ρ), []) where
  sound := sound_start ops d
  guarded o hop := by cases hop
  covered := .inl fun p hp => by cases hp

/-- A call that finds its guard false has nothing to go on with. -/
theorem Sound.data_of_testing {d : σ} {m : State μ σ ρ} {h : List (Commit μ ρ)}
    (hm : Sound ops d (m, h)) {i : Nat} {o : μ} (hp : m.calls[i]? = some (.testing o)) :
    m.data = after ops d h := by
  refine hm.2.idle fun j o' rest r hj => ?_
  by_cases hij : i = j
  · subst hij
    rw [hp] at hj
    cases hj
  · exact hm.1.not_acting ⟨_, hp, rfl⟩ hij o' rest r hj

/-- Every step leaves whoever waits covered. -/
theorem covered_step {supply : σ → ℕ∞} (hops : ∀ o, (ops o).Settles supply) {d : σ}
    {x : State μ σ ρ × List (Commit μ ρ)} (hx : Supplied ops supply d x) (l : Label μ) :
    Covered ops supply d (watch (State.step ops) noteCommit x l) := by
  obtain ⟨m, h⟩ := x
  obtain ⟨hsound, hguarded, hcovered⟩ := hx
  cases l with
  | call o =>
    obtain hnone | ⟨p, hp, hrousing⟩ | hle := hcovered
    · refine .inl fun p hp => ?_
      rcases List.mem_append.mp hp with hp | hp
      · exact hnone p hp
      · rw [List.mem_singleton.mp hp]
        rfl
    · exact .inr (.inl ⟨p, List.mem_append_left _ hp, hrousing⟩)
    · refine .inr (.inr ?_)
      simp only [watch, State.step, noteCommit, total_append]
      exact hle
  | wake i =>
    obtain hnone | ⟨p, hp, hrousing⟩ | hle := hcovered
    · refine .inl fun p hp => ?_
      rcases mem_modify hp with hp | ⟨o, rfl, -⟩
      · exact hnone p hp
      · rfl
    · obtain ⟨j, hj⟩ := at_of_mem (P := (·.rousing ops = true)) hp hrousing
      exact .inr (.inl ((at_modify (P := (·.rousing ops = true)) rousing_roused i j).mpr hj).mem)
    · refine .inr (.inr (hle.trans (Nat.cast_le.mpr ?_)))
      exact total_le_modify (Place.token ops) token_le_roused m.calls i
  | go i w =>
    obtain ⟨hsame, hstays⟩ | ⟨p, q, d', holder, hp, hturn, hchosen, hstep⟩ := step_go ops m i w
    · simp only [watch, hsame, noteCommit_of_stays ops hstays]
      exact hcovered
    · simp only [watch, hstep]
      cases hturn with
      | lock o hfree | relock o hfree =>
        simp only [noteCommit, hp]
        exact hcovered.silent hp rfl rfl (by simp [Place.token]) ..
      | pass o hready =>
        simp only [noteCommit, hp]
        exact hcovered.silent hp rfl rfl (by simp [Place.token]) ..
      | wait o hready =>
        simp only [noteCommit, hp]
        have hop := hops o
        rw [hsound.data_of_testing hp] at hready
        refine .inr (.inr ?_)
        rw [hop.supply_eq_zero hready]
        exact zero_le
      | access o a rest r =>
        simp only [noteCommit, hp]
        exact hcovered.silent hp rfl rfl (by simp [Place.token]) ..
      | unlock o r =>
        simp only [noteCommit, hp]
        exact hcovered.unlock (hops o)
          (hsound.2.acting i o [] r hp).1 hp ..
      | signal o r =>
        simp only [noteCommit, hp]
        exact hcovered.signal hguarded hp hchosen ..

/-- Every step of operations that settle keeps the supply. -/
theorem supplied_step {supply : σ → ℕ∞} (hops : ∀ o, (ops o).Settles supply) {d : σ}
    (x : State μ σ ρ × List (Commit μ ρ)) (l : Label μ) (hx : Supplied ops supply d x) :
    Supplied ops supply d (watch (State.step ops) noteCommit x l) where
  sound := sound_step ops d x l hx.sound
  guarded := by
    obtain ⟨m, h⟩ := x
    cases l with
    | call o =>
      intro o' hop'
      rcases List.mem_append.mp hop' with hp | hp
      · exact hx.guarded o' hp
      · cases List.mem_singleton.mp hp
    | wake i =>
      intro o' hop'
      rcases mem_modify hop' with hp | ⟨o, hwoken, -⟩
      · exact hx.guarded o' hp
      · cases hwoken
    | go i w =>
      obtain ⟨hsame, -⟩ | ⟨p, q, d', holder, hp, hturn, -, hstep⟩ := step_go ops m i w
      · simp only [watch, hsame]
        exact hx.guarded
      · simp only [watch, hstep]
        intro o' hop'
        rcases waiting_of_mem_turn hop' with hmem | rfl
        · exact hx.guarded o' hmem
        · cases hturn with
          | wait o hready => exact Op.guarded_of_not_ready hready
  covered := covered_step hops hx l

/-- No call is left waiting with its guard true: once no call can go on, each is done or waits
without supply. -/
theorem stuck_waiting {supply : σ → ℕ∞} (hops : ∀ o, (ops o).Settles supply) (d : σ)
    (ls : List (Label μ))
    (hstuck : Stuck ops (run (watch (State.step ops) noteCommit) (State.start d, []) ls).1) :
    ∀ p ∈ (run (watch (State.step ops) noteCommit) (State.start d, []) ls).1.calls,
      (∃ o r, p = .done o r) ∨ ∃ o, p = .waiting o ∧
        supply (run (watch (State.step ops) noteCommit) (State.start d, []) ls).1.data = 0 := by
  have hstart : Supplied ops supply d (State.start d, []) := supplied_start supply d
  have hsupplied := run_of_invariant _ (supplied_step hops) hstart ls
  generalize run (watch (State.step ops) noteCommit) (State.start d, []) ls = x at hsupplied hstuck ⊢
  obtain ⟨m, h⟩ := x
  obtain ⟨hfree, hplaces⟩ := hstuck.places hsupplied.sound.1
  have hdata : m.data = after ops d h :=
    hsupplied.sound.2.idle fun i o rest r hi => hsupplied.sound.1.not_acting_of_free hfree i o rest r hi
  have htoken : total (Place.token ops) m.calls = 0 := by
    refine List.sum_eq_zero_iff_forall_eq_nat.mpr fun n hn => ?_
    obtain ⟨p, hp, rfl⟩ := List.mem_map.mp hn
    obtain ⟨o, rfl⟩ | ⟨o, r, rfl⟩ := hplaces p hp
    · rfl
    · rfl
  intro p hp
  obtain ⟨o, rfl⟩ | hdone := hplaces p hp
  · refine .inr ⟨o, rfl, ?_⟩
    rw [hdata]
    obtain hnone | ⟨p', hp', hrousing⟩ | hle := hsupplied.covered
    · cases hnone _ hp
    · obtain ⟨o', rfl⟩ | ⟨o', r, rfl⟩ := hplaces p' hp'
      · cases hrousing
      · cases hrousing
    · simp only [htoken] at hle
      exact nonpos_iff_eq_zero.mp hle
  · exact .inl hdone

end OipComms.Monitor
