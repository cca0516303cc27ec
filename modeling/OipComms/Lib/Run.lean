import Mathlib.Data.List.Basic

/-!
# Runs of a labelled machine

A component under concurrency or under an arbitrary caller is a deterministic step on states and
labels: the label carries the caller's choice and the environment's answers. A run is the fold of
the step over a list of labels.

`Along P` says that `P` holds in every state a run visits, `Meets C` that each of its steps is
taken under `C`. The two rules this library exists for relate them: `along_of_meets` (an invariant
that the steps under `C` keep) and `along_iff_meets` (the same, with a step outside `C` breaking
`P` at once, so that `C` is the exact condition). `Meets.mono`, `meets_iff_meets` and
`meets_iff_meets_while` do the same for what is said of the steps themselves.

What a property has to remember is kept in a history beside the machine (`watch`).
-/

namespace OipComms.Run

universe u v w x

variable {σ : Type u} {ι : Type v} (step : σ → ι → σ)

/-- The state after a list of labels. -/
def run (s : σ) (ops : List ι) : σ := ops.foldl step s

/-- `P` holds in every state of the run, the first and the last included. -/
def Along (P : σ → Prop) : σ → List ι → Prop
  | s, [] => P s
  | s, o :: ops => P s ∧ Along P (step s o) ops

/-- Every step of the run is taken in a state and with a label that satisfy `C`. -/
def Meets (C : σ → ι → Prop) : σ → List ι → Prop
  | _, [] => True
  | s, o :: ops => C s o ∧ Meets C (step s o) ops

/-- A condition that can be tested on one step can be tested on a run. -/
instance decidableMeets {C : σ → ι → Prop} [∀ s o, Decidable (C s o)] (s : σ) :
    (ops : List ι) → Decidable (Meets step C s ops)
  | [] => .isTrue trivial
  | o :: ops =>
    have := decidableMeets (C := C) (step s o) ops
    inferInstanceAs (Decidable (C s o ∧ Meets step C (step s o) ops))

@[simp] theorem run_nil (s : σ) : run step s [] = s := rfl

@[simp] theorem run_cons (s : σ) (o : ι) (ops : List ι) :
    run step s (o :: ops) = run step (step s o) ops := rfl

theorem run_append (s : σ) (ops ops' : List ι) :
    run step s (ops ++ ops') = run step (run step s ops) ops' := List.foldl_append

/-- A run followed by one more label. -/
theorem run_concat (s : σ) (ops : List ι) (o : ι) :
    run step s (ops ++ [o]) = step (run step s ops) o := run_append step s ops [o]

/-- `Along` read over the prefixes of the list of labels. -/
theorem along_iff_prefixes (P : σ → Prop) (s : σ) (ops : List ι) :
    Along step P s ops ↔ ∀ pre, pre <+: ops → P (run step s pre) := by
  induction ops generalizing s with
  | nil => simp only [Along, List.prefix_nil, forall_eq, run_nil]
  | cons o ops ih =>
    simp only [Along, ih]
    constructor
    · rintro ⟨h0, h⟩ pre hpre
      cases pre with
      | nil => exact h0
      | cons o' pre =>
        obtain ⟨rfl, hpre'⟩ := List.cons_prefix_cons.mp hpre
        exact h pre hpre'
    · intro h
      refine ⟨h [] List.nil_prefix, fun pre hpre => ?_⟩
      exact h (o :: pre) (List.cons_prefix_cons.mpr ⟨rfl, hpre⟩)

/-- The last state of a run is one of its states. -/
theorem Along.last {P : σ → Prop} {s : σ} {ops : List ι} (h : Along step P s ops) :
    P (run step s ops) :=
  (along_iff_prefixes step P s ops).mp h ops (List.prefix_refl ops)

/-- `Meets` read over the splittings of the list of labels. -/
theorem meets_iff_split (C : σ → ι → Prop) (s : σ) (ops : List ι) :
    Meets step C s ops ↔ ∀ pre o post, ops = pre ++ o :: post → C (run step s pre) o := by
  induction ops generalizing s with
  | nil => simp [Meets]
  | cons o ops ih =>
    simp only [Meets, ih]
    constructor
    · rintro ⟨h0, h⟩ pre o' post heq
      cases pre with
      | nil =>
        obtain ⟨rfl, rfl⟩ := List.cons.inj heq
        exact h0
      | cons p pre =>
        obtain ⟨rfl, rfl⟩ := List.cons.inj heq
        exact h pre o' post rfl
    · intro h
      refine ⟨h [] o ops rfl, fun pre o' post heq => ?_⟩
      exact h (o :: pre) o' post (by rw [heq, List.cons_append])

theorem Along.mono {P Q : σ → Prop} (hPQ : ∀ s, P s → Q s) {s : σ} {ops : List ι}
    (h : Along step P s ops) : Along step Q s ops := by
  induction ops generalizing s with
  | nil => exact hPQ s h
  | cons o ops ih => exact ⟨hPQ s h.1, ih h.2⟩

/-- An invariant of every step holds along every run. -/
theorem along_of_invariant {J : σ → Prop} (hstep : ∀ s o, J s → J (step s o)) {s : σ}
    (h0 : J s) (ops : List ι) : Along step J s ops := by
  induction ops generalizing s with
  | nil => exact h0
  | cons o ops ih => exact ⟨h0, ih (hstep s o h0)⟩

/-- An invariant of every step holds at the end of every run. -/
theorem run_of_invariant {J : σ → Prop} (hstep : ∀ s o, J s → J (step s o)) {s : σ}
    (h0 : J s) (ops : List ι) : J (run step s ops) :=
  (along_of_invariant step hstep h0 ops).last

/-- What no step of a run changes is the same at its end. -/
theorem view_of_keeps {τ : Type u} {J : σ → Prop} (view : σ → τ) {ops : List ι}
    (hJ : ∀ s o, J s → J (step s o)) (hkeep : ∀ s, J s → ∀ o ∈ ops, view (step s o) = view s)
    {s : σ} (h0 : J s) : view (run step s ops) = view s := by
  induction ops generalizing s with
  | nil => rfl
  | cons o ops ih =>
    have hrest := ih (fun s hs o ho => hkeep s hs o (List.mem_cons_of_mem _ ho)) (hJ s o h0)
    rw [run_cons, hrest, hkeep s h0 o List.mem_cons_self]

/-- Where each step of a run is, as it is seen, a run of another machine, the run is one. -/
theorem exists_run {τ : Type w} {κ : Type x} (step' : τ → κ → τ) (view : σ → τ) {J : σ → Prop}
    {ops : List ι} (hJ : ∀ s o, J s → J (step s o))
    (hsim : ∀ s, J s → ∀ o ∈ ops, ∃ os, run step' (view s) os = view (step s o))
    {s : σ} (h0 : J s) : ∃ os, run step' (view s) os = view (run step s ops) := by
  induction ops generalizing s with
  | nil => exact ⟨[], rfl⟩
  | cons o ops ih =>
    obtain ⟨os, hos⟩ := hsim s h0 o List.mem_cons_self
    obtain ⟨os', hos'⟩ :=
      ih (fun s hs o ho => hsim s hs o (List.mem_cons_of_mem _ ho)) (hJ s o h0)
    refine ⟨os ++ os', ?_⟩
    rw [run_append, hos, hos']
    rfl

section
variable {τ : Type w} (step' : τ → ι → τ) (view : σ → τ) {J : σ → Prop}

/-- Where each step of a run is, as it is seen, a step of another machine, the run is one. -/
theorem run_view (hJ : ∀ s o, J s → J (step s o))
    (hview : ∀ s o, J s → view (step s o) = step' (view s) o) {s : σ} (h0 : J s) (ops : List ι) :
    view (run step s ops) = run step' (view s) ops := by
  induction ops generalizing s with
  | nil => rfl
  | cons o ops ih => rw [run_cons, run_cons, ih (hJ s o h0), hview s o h0]

/-- And a condition on what is seen is met by the one as by the other. -/
theorem meets_view {C : τ → ι → Prop} (hJ : ∀ s o, J s → J (step s o))
    (hview : ∀ s o, J s → view (step s o) = step' (view s) o) {s : σ} (h0 : J s) (ops : List ι) :
    Meets step (fun s => C (view s)) s ops ↔ Meets step' C (view s) ops := by
  induction ops generalizing s with
  | nil => rfl
  | cons o ops ih =>
    rw [Meets, Meets, ← hview s o h0]
    exact and_congr_right fun _ => ih (hJ s o h0)

end

/-- An invariant of the steps under `C` holds along every run whose steps meet `C`. -/
theorem along_of_meets {J : σ → Prop} {C : σ → ι → Prop}
    (hstep : ∀ s o, J s → C s o → J (step s o)) {s : σ} {ops : List ι}
    (h0 : J s) (h : Meets step C s ops) : Along step J s ops := by
  induction ops generalizing s with
  | nil => exact h0
  | cons o ops ih => exact ⟨h0, ih (hstep s o h0 h.1) h.2⟩

/-- What every step under `C` has, from a state of an invariant such steps keep, a run under `C` has
at each of its steps. -/
theorem Meets.mono {J : σ → Prop} {C Q : σ → ι → Prop}
    (hstep : ∀ s o, J s → C s o → J (step s o)) (hQ : ∀ s o, J s → C s o → Q s o)
    {s : σ} {ops : List ι} (h0 : J s) (h : Meets step C s ops) : Meets step Q s ops := by
  induction ops generalizing s with
  | nil => trivial
  | cons o ops ih => exact ⟨hQ s o h0 h.1, ih (hstep s o h0 h.1) h.2⟩

/-- Two conditions that agree under an invariant agree on runs whose steps meet what keeps it. -/
theorem meets_iff_meets_under {J : σ → Prop} {C Q D : σ → ι → Prop}
    (hstep : ∀ s o, J s → D s o → J (step s o)) (hCQ : ∀ s o, J s → D s o → (C s o ↔ Q s o))
    {s : σ} {ops : List ι} (h0 : J s) (hD : Meets step D s ops) :
    Meets step C s ops ↔ Meets step Q s ops := by
  induction ops generalizing s with
  | nil => rfl
  | cons o ops ih => exact and_congr (hCQ s o h0 hD.1) (ih (hstep s o h0 hD.1) hD.2)

/-- A condition every step has is met. -/
theorem meets_of_forall {C : σ → ι → Prop} (hC : ∀ s o, C s o) (s : σ) (ops : List ι) :
    Meets step C s ops := by
  induction ops generalizing s with
  | nil => trivial
  | cons o ops ih => exact ⟨hC s o, ih (step s o)⟩

/-- Two conditions that agree under an invariant of every step agree on runs. -/
theorem meets_iff_meets {J : σ → Prop} {C Q : σ → ι → Prop}
    (hstep : ∀ s o, J s → J (step s o)) (hCQ : ∀ s o, J s → (C s o ↔ Q s o))
    {s : σ} (h0 : J s) (ops : List ι) : Meets step C s ops ↔ Meets step Q s ops :=
  meets_iff_meets_under step (fun s o hJ _ => hstep s o hJ) (fun s o hJ _ => hCQ s o hJ) h0
    (meets_of_forall step (C := fun _ _ => True) (fun _ _ => trivial) s ops)

/-- Two conditions that agree under an invariant agree on runs, when the steps that meet one of them
keep it: the first step outside the one is the first outside the other. -/
theorem meets_iff_meets_while {J : σ → Prop} {C Q : σ → ι → Prop}
    (hstep : ∀ s o, J s → C s o → J (step s o)) (hCQ : ∀ s o, J s → (C s o ↔ Q s o))
    {s : σ} (h0 : J s) (ops : List ι) : Meets step C s ops ↔ Meets step Q s ops := by
  induction ops generalizing s with
  | nil => rfl
  | cons o ops ih =>
    by_cases hC : C s o
    · exact and_congr (hCQ s o h0) (ih (hstep s o h0 hC))
    · have hQ : ¬ Q s o := fun hQ => hC ((hCQ s o h0).mpr hQ)
      simp only [Meets, hC, hQ, false_and]

/-- A condition on the labels alone is met if every label has it. -/
theorem meets_of_labels {C : ι → Prop} {ops : List ι} (h : ∀ o ∈ ops, C o) (s : σ) :
    Meets step (fun _ => C) s ops := by
  induction ops generalizing s with
  | nil => trivial
  | cons o ops ih =>
    exact ⟨h o List.mem_cons_self, ih (fun o' ho' => h o' (List.mem_cons_of_mem _ ho')) (step s o)⟩

/-- What the steps under `D` have in the states of `P`, a run that stays in `P` has at each of its
steps. -/
theorem Along.meets {P : σ → Prop} {D Q : σ → ι → Prop} (hQ : ∀ s o, P s → D s o → Q s o) {s : σ}
    {ops : List ι} (h : Along step P s ops) (hD : Meets step D s ops) : Meets step Q s ops := by
  induction ops generalizing s with
  | nil => trivial
  | cons o ops ih => exact ⟨hQ s o h.1 hD.1, ih h.2 hD.2⟩

/-- `C` is the exact condition for `P`: a step under `C` keeps the invariant `J`, which gives `P`,
and a step outside `C` from a state of `J` ends where `P` fails. `B` collects what every step
keeps, under the side condition `D` that the rest of the run is known to satisfy. -/
theorem along_iff_meets {B J P : σ → Prop} {C D : σ → ι → Prop}
    (hB : ∀ s o, B s → D s o → B (step s o))
    (hJ : ∀ s o, B s → J s → D s o → C s o → J (step s o))
    (hP : ∀ s, B s → J s → P s)
    (hbreak : ∀ s o, B s → J s → D s o → ¬ C s o → ¬ P (step s o))
    {s : σ} {ops : List ι} (h0 : B s) (h1 : J s) (hD : Meets step D s ops) :
    Along step P s ops ↔ Meets step C s ops := by
  induction ops generalizing s with
  | nil => simp only [Along, Meets, iff_true]; exact hP s h0 h1
  | cons o ops ih =>
    simp only [Along, Meets]
    have hB' := hB s o h0 hD.1
    by_cases hC : C s o
    · rw [ih hB' (hJ s o h0 h1 hD.1 hC) hD.2]
      simp only [hP s h0 h1, hC, true_and]
    · simp only [hC, false_and, iff_false, not_and]
      intro _ hrest
      refine hbreak s o h0 h1 hD.1 hC ?_
      cases ops with
      | nil => exact hrest
      | cons o' ops => exact hrest.1

/-- A measure that no step raises, and that the steps with `p` lower while it is not zero, is used up
by as many of them. -/
theorem run_measure {J : σ → Prop} (f : σ → Nat) (p : ι → Bool)
    (hJ : ∀ s o, J s → J (step s o)) (hle : ∀ s o, J s → f (step s o) ≤ f s)
    (hlt : ∀ s o, J s → p o = true → f s ≠ 0 → f (step s o) < f s) {s : σ} (h0 : J s)
    (ops : List ι) : f (run step s ops) ≤ f s - ops.countP p := by
  induction ops generalizing s with
  | nil => exact Nat.le_refl _
  | cons o ops ih =>
    have hrest := ih (hJ s o h0)
    have hstep := hle s o h0
    rw [run_cons, List.countP_cons]
    cases hp : p o with
    | false =>
      simp only [Bool.false_eq_true, if_false, Nat.add_zero]
      omega
    | true =>
      have hdown := hlt s o h0 hp
      simp only [if_true]
      omega

/-! ## Histories -/

variable {γ : Type w} (note : σ → ι → γ → γ)

/-- A machine with a history of its steps, which they never read. -/
def watch (x : σ × γ) (o : ι) : σ × γ := (step x.1 o, note x.1 o x.2)

/-- The history leaves the runs as they are. -/
theorem run_watch_fst (x : σ × γ) (ops : List ι) :
    (run (watch step note) x ops).1 = run step x.1 ops :=
  run_view (watch step note) step Prod.fst (J := fun _ => True) (fun _ _ h => h) (fun _ _ _ => rfl)
    trivial ops

/-- A condition on the machine is met whether the history is kept or not. -/
theorem meets_watch (C : σ → ι → Prop) (x : σ × γ) (ops : List ι) :
    Meets (watch step note) (fun x => C x.1) x ops ↔ Meets step C x.1 ops :=
  meets_view (watch step note) step Prod.fst (J := fun _ => True) (fun _ _ h => h) (fun _ _ _ => rfl)
    trivial ops

end OipComms.Run
