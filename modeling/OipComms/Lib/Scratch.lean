import Mathlib.Logic.Function.Basic
import OipComms.Lib.Run

/-!
# A scratch cell shared by several parties

Parties that go on independently share one cell. A part of a party fills the cell, goes on with what
the cell holds, or does without it; a party that uses the cell means to find what it has filled in
itself.

Where every party does, each goes on as with a cell of its own, and the interleaving makes no
difference (`run_alone`). It is enough that a party fills the cell only while no other relies on what
it has filled in (`undisturbed_of_exclusive`).
-/

namespace OipComms.Scratch

open Run

universe u v w x

/-- What a part of a party does. -/
inductive Part (α : Type v) (κ : Type w)
  | keep (next : α)
  | fill (content : κ) (next : α)
  | use (next : κ → α)

/-- The parties, and the cell. -/
structure Shared (ι : Type u) (α : Type v) (κ : Type w) where
  parties : ι → α
  cell : κ

section

variable {ι : Type u} [DecidableEq ι] {α : Type v} {κ : Type w} {ε : Type x}
variable (part : ε → α → Part α κ)

/-- A label names a party and its part. -/
def Shared.step (s : Shared ι α κ) (l : ι × ε) : Shared ι α κ :=
  match part l.2 (s.parties l.1) with
  | .keep next => { s with parties := Function.update s.parties l.1 next }
  | .fill content next => { parties := Function.update s.parties l.1 next, cell := content }
  | .use next => { s with parties := Function.update s.parties l.1 (next s.cell) }

/-- A party with a cell of its own. -/
def alone (x : α × κ) (e : ε) : α × κ :=
  match part e x.1 with
  | .keep next => (next, x.2)
  | .fill content next => (next, content)
  | .use next => (next x.2, x.2)

/-- What each party has filled in last. -/
def noteFill (s : Shared ι α κ) (l : ι × ε) (own : ι → κ) : ι → κ :=
  match part l.2 (s.parties l.1) with
  | .fill content _ => Function.update own l.1 content
  | _ => own

/-- What one fills in is not another's. -/
theorem noteFill_of_ne (s : Shared ι α κ) {l : ι × ε} {p : ι} (hne : p ≠ l.1) (own : ι → κ) :
    noteFill part s l own p = own p := by
  rw [noteFill]
  cases part l.2 (s.parties l.1) with
  | keep next => rfl
  | fill content next => exact Function.update_of_ne hne content own
  | use next => rfl

/-- A part that uses the cell finds what its party has filled in last. -/
def Undisturbed (x : Shared ι α κ × (ι → κ)) (l : ι × ε) : Prop :=
  match part l.2 (x.1.parties l.1) with
  | .use _ => x.1.cell = x.2 l.1
  | _ => True

/-- The parts of one party. -/
def labelsOf (p : ι) (ops : List (ι × ε)) : List ε :=
  ops.filterMap fun l => if l.1 = p then some l.2 else none

/-- One's own step is the first of one's own. -/
theorem labelsOf_cons_self (p : ι) (e : ε) (ops : List (ι × ε)) :
    labelsOf p ((p, e) :: ops) = e :: labelsOf p ops :=
  List.filterMap_cons_some (if_pos rfl)

/-- The step of another is none of one's own. -/
theorem labelsOf_cons_of_ne {p q : ι} (hne : q ≠ p) (e : ε) (ops : List (ι × ε)) :
    labelsOf p ((q, e) :: ops) = labelsOf p ops :=
  List.filterMap_cons_none (if_neg hne)

/-- A party seen by itself, with what it has filled in last. -/
def seen (p : ι) (x : Shared ι α κ × (ι → κ)) : α × κ := (x.1.parties p, x.2 p)

/-- A part that is not disturbed is a part of the party alone. -/
theorem seen_step_self {p : ι} {e : ε} {x : Shared ι α κ × (ι → κ)}
    (h : Undisturbed part x (p, e)) :
    seen p (watch (Shared.step part) (noteFill part) x (p, e)) = alone part (seen p x) e := by
  obtain ⟨s, own⟩ := x
  simp only [watch, seen, Shared.step, noteFill, alone, Undisturbed] at h ⊢
  cases hpart : part e (s.parties p) with
  | keep next => simp only [Function.update_self]
  | fill content next => simp only [Function.update_self]
  | use next =>
    simp only [hpart] at h
    simp only [Function.update_self, h]

/-- The step of another leaves what one has seen. -/
theorem seen_step_of_ne {p q : ι} (hne : q ≠ p) (e : ε) (x : Shared ι α κ × (ι → κ)) :
    seen p (watch (Shared.step part) (noteFill part) x (q, e)) = seen p x := by
  obtain ⟨s, own⟩ := x
  simp only [watch, seen, noteFill_of_ne part s (l := (q, e)) hne.symm, Shared.step]
  cases part e (s.parties q) with
  | keep next => simp only [Function.update_of_ne hne.symm]
  | fill content next => simp only [Function.update_of_ne hne.symm]
  | use next => simp only [Function.update_of_ne hne.symm]

/-- Where no use is disturbed, each party goes on as if it were alone with the cell. -/
theorem run_alone {x : Shared ι α κ × (ι → κ)} {ops : List (ι × ε)}
    (h : Meets (watch (Shared.step part) (noteFill part)) (Undisturbed part) x ops) (p : ι) :
    seen p (run (watch (Shared.step part) (noteFill part)) x ops) =
      run (alone part) (seen p x) (labelsOf p ops) := by
  induction ops generalizing x with
  | nil => rfl
  | cons l ops ih =>
    obtain ⟨q, e⟩ := l
    rw [run_cons, ih h.2]
    by_cases hq : q = p
    · subst hq
      rw [seen_step_self part h.1, labelsOf_cons_self, run_cons]
    · rw [seen_step_of_ne part hq, labelsOf_cons_of_ne hq]

/-! ## Exclusion -/

/-- A party relies on the cell from when it has filled it until it has used it: no other part makes
it do so. -/
structure Reliance (relies : α → Bool) : Prop where
  use : ∀ {e a next}, part e a = .use next → relies a = true
  keep : ∀ {e a next}, part e a = .keep next → relies next = true → relies a = true

/-- The cell is filled only while no other party relies on it. -/
def Exclusive (relies : α → Bool) (s : Shared ι α κ) (l : ι × ε) : Prop :=
  match part l.2 (s.parties l.1) with
  | .fill _ _ => ∀ q, q ≠ l.1 → relies (s.parties q) = false
  | _ => True

/-- A party that relies on the cell finds its own there. -/
def Intact (relies : α → Bool) (x : Shared ι α κ × (ι → κ)) : Prop :=
  ∀ p, relies (x.1.parties p) = true → x.1.cell = x.2 p

/-- A step that excludes the others keeps what is relied on intact. -/
theorem intact_step {relies : α → Bool} (hrelies : Reliance part relies)
    {x : Shared ι α κ × (ι → κ)} {l : ι × ε} (hx : Intact relies x)
    (hexclusive : Exclusive part relies x.1 l) :
    Intact relies (watch (Shared.step part) (noteFill part) x l) := by
  obtain ⟨s, own⟩ := x
  intro p hp
  simp only [watch, Shared.step, noteFill, Exclusive] at hp hexclusive ⊢
  by_cases hl : p = l.1
  · subst hl
    cases hpart : part l.2 (s.parties l.1) with
    | keep next =>
      simp only [hpart, Function.update_self] at hp ⊢
      exact hx l.1 (hrelies.keep hpart hp)
    | fill content next => simp only [Function.update_self]
    | use next => exact hx l.1 (hrelies.use hpart)
  · cases hpart : part l.2 (s.parties l.1) with
    | keep next =>
      simp only [hpart, Function.update_of_ne hl] at hp
      exact hx p hp
    | fill content next =>
      simp only [hpart, Function.update_of_ne hl] at hp hexclusive
      rw [hexclusive p hl] at hp
      cases hp
    | use next =>
      simp only [hpart, Function.update_of_ne hl] at hp
      exact hx p hp

/-- Exclusion is enough for no use to be disturbed. -/
theorem undisturbed_of_exclusive {relies : α → Bool} (hrelies : Reliance part relies)
    {s : Shared ι α κ} {own : ι → κ} (hstart : Intact relies (s, own)) {ops : List (ι × ε)}
    (h : Meets (Shared.step part) (Exclusive part relies) s ops) :
    Meets (watch (Shared.step part) (noteFill part)) (Undisturbed part) (s, own) ops := by
  rw [← meets_watch (Shared.step part) (noteFill part) _ (s, own)] at h
  refine h.mono _ (J := Intact relies) (fun _ _ hx hl => intact_step part hrelies hx hl) ?_ hstart
  intro x l hx _
  rw [Undisturbed]
  cases hpart : part l.2 (x.1.parties l.1) with
  | keep next => trivial
  | fill content next => trivial
  | use next => exact hx l.1 (hrelies.use hpart)

end

end OipComms.Scratch
