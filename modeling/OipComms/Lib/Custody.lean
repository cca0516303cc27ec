import Mathlib.Data.Finset.Basic

/-!
# Custody

A program that is handed resources, uses them and gives them back leaves a trace of what it did.
`custody` follows the trace from what is held at first: nothing is handed out twice, and what is used
or given back is held. It is none from the first event that goes against this, a use after the
release or a second release; otherwise it is what is held in the end.

A part of a program is known by what its trace makes of what it finds (`Keeps`), and a program that
numbers what it is handed by what it holds so far (`Holding`): what it is handed next is new to it.

Custody can be looked after for each resource alone: a trace is in order if what it does with each
one is (`exists_custody`).
-/

namespace OipComms.Custody

universe u v

/-- What is done with a resource. -/
inductive Event (ρ : Type u)
  | acquire (r : ρ)
  | use (r : ρ)
  | release (r : ρ)
  deriving DecidableEq, Repr

variable {ρ : Type u} [DecidableEq ρ]

/-- What is held after an event, if the event is in order. -/
def Event.act (held : Finset ρ) : Event ρ → Option (Finset ρ)
  | .acquire r => if r ∈ held then none else some (insert r held)
  | .use r => if r ∈ held then some held else none
  | .release r => if r ∈ held then some (held.erase r) else none

/-- What is held after a trace, if all of it is in order. -/
def custody (held : Finset ρ) : List (Event ρ) → Option (Finset ρ)
  | [] => some held
  | e :: es => (e.act held).bind fun held => custody held es

@[simp] theorem custody_nil (held : Finset ρ) : custody held [] = some held := rfl

theorem custody_cons (held : Finset ρ) (e : Event ρ) (es : List (Event ρ)) :
    custody held (e :: es) = (e.act held).bind fun held => custody held es := rfl

/-- A trace goes on from what its first part leaves. -/
theorem custody_append (held : Finset ρ) (es es' : List (Event ρ)) :
    custody held (es ++ es') = (custody held es).bind fun held => custody held es' := by
  induction es generalizing held with
  | nil => rfl
  | cons e es ih =>
    rw [List.cons_append, custody_cons, custody_cons]
    cases e.act held with
    | none => rfl
    | some held' => exact ih held'

/-- What goes against custody once, does so for good. -/
theorem custody_append_none {held : Finset ρ} {es : List (Event ρ)} (h : custody held es = none)
    (es' : List (Event ρ)) : custody held (es ++ es') = none := by
  rw [custody_append, h]
  rfl

/-- A trace is in order, and makes of what is held something else. -/
def Keeps (held : Finset ρ) (es : List (Event ρ)) (held' : Finset ρ) : Prop :=
  custody held es = some held'

namespace Keeps

variable {held held' : Finset ρ} {es : List (Event ρ)} {r : ρ}

theorem nil (held : Finset ρ) : Keeps held [] held := rfl

/-- Something new is held by what follows. -/
theorem acquire (hnew : r ∉ held) (h : Keeps (insert r held) es held') :
    Keeps held (.acquire r :: es) held' := by
  rw [Keeps, custody_cons, Event.act, if_neg hnew]
  exact h

/-- Something held is used, and held by what follows. -/
theorem use (hheld : r ∈ held) (h : Keeps held es held') : Keeps held (.use r :: es) held' := by
  rw [Keeps, custody_cons, Event.act, if_pos hheld]
  exact h

/-- Something held is given back, and gone for what follows. -/
theorem release (hheld : r ∈ held) (h : Keeps (held.erase r) es held') :
    Keeps held (.release r :: es) held' := by
  rw [Keeps, custody_cons, Event.act, if_pos hheld]
  exact h

end Keeps

/-- All that was done is in order, and this is held; what is handed out next has a number that
nothing held has. -/
structure Holding (number : ρ → Nat) (events : List (Event ρ)) (next : Nat) (held : Finset ρ) :
    Prop where
  custody : custody ∅ events = some held
  below : ∀ r ∈ held, number r < next

namespace Holding

variable {number : ρ → Nat} {events : List (Event ρ)} {next : Nat} {held held' : Finset ρ} {r : ρ}

/-- At first nothing is held. -/
theorem start (number : ρ → Nat) (next : Nat) : Holding number [] next ∅ :=
  ⟨rfl, fun _ hr => absurd hr (Finset.notMem_empty _)⟩

/-- Nothing more is handed out. -/
theorem does (h : Holding number events next held) {es : List (Event ρ)}
    (hkeeps : Keeps held es held') (hsub : held' ⊆ held) :
    Holding number (events ++ es) next held' := by
  refine ⟨?_, fun r hr => h.below r (hsub hr)⟩
  rw [custody_append, h.custody]
  exact hkeeps

theorem use (h : Holding number events next held) (hr : r ∈ held) :
    Holding number (events ++ [.use r]) next held :=
  h.does (.use hr (.nil held)) (Finset.Subset.refl held)

/-- Things held are used. -/
theorem uses (h : Holding number events next held) {rs : List ρ} (hrs : ∀ r ∈ rs, r ∈ held) :
    Holding number (events ++ rs.map .use) next held := by
  induction rs generalizing events with
  | nil =>
    rw [List.map_nil, List.append_nil]
    exact h
  | cons r rs ih =>
    rw [List.map_cons, List.append_cons]
    exact ih (h.use (hrs r List.mem_cons_self)) fun r' hr' => hrs r' (List.mem_cons_of_mem r hr')

/-- Something held is given back. -/
theorem release (h : Holding number events next held) (hr : r ∈ held) :
    Holding number (events ++ [.release r]) next (held.erase r) :=
  h.does (.release hr (.nil _)) (Finset.erase_subset r held)

/-- A new number is that of nothing held. -/
theorem not_mem (h : Holding number events next held) (hr : number r = next) : r ∉ held :=
  fun hmem => Nat.lt_irrefl next (hr ▸ h.below r hmem)

/-- Something with the next number is handed out. -/
theorem acquire (h : Holding number events next held) (hr : number r = next) :
    Holding number (events ++ [.acquire r]) (next + 1) (insert r held) := by
  refine ⟨?_, fun r' hr' => ?_⟩
  · rw [custody_append, h.custody]
    exact Keeps.acquire (h.not_mem hr) (.nil _)
  · rcases Finset.mem_insert.mp hr' with rfl | hr'
    · exact hr ▸ Nat.lt_succ_self _
    · exact Nat.lt_succ_of_lt (h.below r' hr')

end Holding

/-- What is used after it was given back goes against custody, whatever happens in between and
after, unless it is handed out again. -/
theorem custody_use_released {held : Finset ρ} {r : ρ} (hreleased : r ∉ held) {es : List (Event ρ)}
    (hnot : .acquire r ∉ es) (es' : List (Event ρ)) :
    custody held (es ++ .use r :: es') = none := by
  induction es generalizing held with
  | nil =>
    rw [List.nil_append, custody_cons, Event.act, if_neg hreleased]
    rfl
  | cons e es ih =>
    have he : e ≠ .acquire r := fun heq => hnot (List.mem_cons.mpr (.inl heq.symm))
    have hes : .acquire r ∉ es := fun hmem => hnot (List.mem_cons_of_mem e hmem)
    rw [List.cons_append, custody_cons]
    cases hact : e.act held with
    | none => rfl
    | some held' =>
      refine ih ?_ hes
      cases e with
      | acquire x =>
        have hne : r ≠ x := fun heq => he (heq ▸ rfl)
        rw [Event.act] at hact
        split at hact
        · cases hact
        · cases hact
          exact fun hmem => (Finset.mem_insert.mp hmem).elim hne hreleased
      | use x =>
        rw [Event.act] at hact
        split at hact
        · cases hact
          exact hreleased
        · cases hact
      | release x =>
        rw [Event.act] at hact
        split at hact
        · cases hact
          exact fun hmem => hreleased (Finset.mem_of_mem_erase hmem)
        · cases hact

/-! ## One resource alone -/

/-- What an event is about. -/
def Event.about : Event ρ → ρ
  | .acquire r | .use r | .release r => r

/-- Whether what an event is about is held after it, if the event is in order. -/
def Event.alone (held : Bool) : Event ρ → Option Bool
  | .acquire _ => if held then none else some true
  | .use _ => if held then some true else none
  | .release _ => if held then some false else none

/-- Whether a resource is held after a trace, if all that is done with it is in order. -/
def alone (r : ρ) (held : Bool) : List (Event ρ) → Option Bool
  | [] => some held
  | e :: es =>
    if e.about = r then (e.alone held).bind fun held => alone r held es else alone r held es

/-- One resource's trace goes on from what its first part leaves. -/
theorem alone_append (r : ρ) (held : Bool) (es es' : List (Event ρ)) :
    alone r held (es ++ es') = (alone r held es).bind fun held => alone r held es' := by
  induction es generalizing held with
  | nil => rfl
  | cons e es ih =>
    rw [List.cons_append, alone, alone]
    split
    · cases e.alone held with
      | none => rfl
      | some held' => exact ih held'
    · exact ih held

/-- What is done with other resources. -/
theorem alone_of_ne {r : ρ} (held : Bool) {es : List (Event ρ)} (h : ∀ e ∈ es, e.about ≠ r) :
    alone r held es = some held := by
  induction es with
  | nil => rfl
  | cons e es ih =>
    rw [alone, if_neg (h e List.mem_cons_self)]
    exact ih fun e' he' => h e' (List.mem_cons_of_mem e he')

/-- A resource that is held and only used. -/
theorem alone_of_uses {r : ρ} {es : List (Event ρ)} (h : ∀ e ∈ es, e.about = r → e = .use r) :
    alone r true es = some true := by
  induction es with
  | nil => rfl
  | cons e es ih =>
    have ih := ih fun e' he' => h e' (List.mem_cons_of_mem e he')
    rw [alone]
    split
    · rename_i heq
      rw [h e List.mem_cons_self heq]
      exact ih
    · exact ih

/-- What is held is used. -/
theorem alone_uses {kept : ρ → Bool} {es : List (Event ρ)}
    (h : ∀ e ∈ es, ∃ r, e = .use r ∧ kept r = true) (r : ρ) :
    alone r (kept r) es = some (kept r) := by
  cases hkept : kept r with
  | true =>
    refine alone_of_uses fun e he hsame => ?_
    obtain ⟨r', rfl, -⟩ := h e he
    exact congrArg Event.use hsame
  | false =>
    refine alone_of_ne false fun e he hsame => ?_
    obtain ⟨r', rfl, hr'⟩ := h e he
    obtain rfl : r' = r := hsame
    exact Bool.false_ne_true (hkept.symm.trans hr')

/-- Of several traces one is about a resource. -/
theorem alone_flatMap {α : Type v} {l : List α} (hnodup : l.Nodup) {a : α} (ha : a ∈ l)
    {f : α → List (Event ρ)} {r : ρ} (held : Bool)
    (hothers : ∀ a' ∈ l, a' ≠ a → ∀ e ∈ f a', e.about ≠ r) :
    alone r held (l.flatMap f) = alone r held (f a) := by
  induction l with
  | nil => cases ha
  | cons b l ih =>
    obtain ⟨hb, hnodup⟩ := List.nodup_cons.mp hnodup
    rw [List.flatMap_cons, alone_append]
    by_cases hab : b = a
    · subst hab
      have hrest : ∀ held', alone r held' (l.flatMap f) = some held' := fun held' => by
        refine alone_of_ne held' fun e he => ?_
        obtain ⟨a', ha', he⟩ := List.mem_flatMap.mp he
        exact hothers a' (List.mem_cons_of_mem b ha') (fun heq => hb (heq ▸ ha')) e he
      simp only [hrest, Option.bind_fun_some]
    · rw [alone_of_ne held (hothers b List.mem_cons_self hab), Option.bind_some]
      exact ih hnodup ((List.mem_cons.mp ha).resolve_left fun heq => hab heq.symm)
        fun a' ha' => hothers a' (List.mem_cons_of_mem b ha')

/-- What is held after an event, by what the event does with its own resource. -/
theorem Event.exists_act {held : Finset ρ} {e : Event ρ} {kept : Bool}
    (h : e.alone (decide (e.about ∈ held)) = some kept) :
    ∃ held', e.act held = some held' ∧
      ∀ r, decide (r ∈ held') = if e.about = r then kept else decide (r ∈ held) := by
  cases e with
  | acquire x =>
    by_cases hx : x ∈ held
    · simp [Event.alone, Event.about, hx] at h
    · simp only [Event.alone, Event.about, hx, decide_false, Bool.false_eq_true, if_false,
        Option.some.injEq] at h
      refine ⟨insert x held, if_neg hx, fun r => ?_⟩
      by_cases hr : x = r
      · subst hr
        simp [Event.about, ← h]
      · simp [Event.about, hr, Ne.symm hr]
  | use x =>
    by_cases hx : x ∈ held
    · simp only [Event.alone, Event.about, hx, decide_true, if_true, Option.some.injEq] at h
      refine ⟨held, if_pos hx, fun r => ?_⟩
      by_cases hr : x = r
      · subst hr
        simp [Event.about, ← h, hx]
      · simp [Event.about, hr]
    · simp [Event.alone, Event.about, hx] at h
  | release x =>
    by_cases hx : x ∈ held
    · simp only [Event.alone, Event.about, hx, decide_true, if_true, Option.some.injEq] at h
      refine ⟨held.erase x, if_pos hx, fun r => ?_⟩
      by_cases hr : x = r
      · subst hr
        simp [Event.about, ← h]
      · simp [Event.about, hr, Ne.symm hr]
    · simp [Event.alone, Event.about, hx] at h

/-- Where what is done with each resource is in order, all of it is. -/
theorem exists_custody {held : Finset ρ} {es : List (Event ρ)} {kept : ρ → Bool}
    (h : ∀ r, alone r (decide (r ∈ held)) es = some (kept r)) :
    ∃ held', custody held es = some held' ∧ ∀ r, decide (r ∈ held') = kept r := by
  induction es generalizing held with
  | nil => exact ⟨held, rfl, fun r => Option.some.inj (h r)⟩
  | cons e es ih =>
    have hown := h e.about
    rw [alone, if_pos rfl] at hown
    obtain ⟨now, hnow, -⟩ := Option.bind_eq_some_iff.mp hown
    obtain ⟨held₁, hact, hheld⟩ := Event.exists_act hnow
    have hrest : ∀ r, alone r (decide (r ∈ held₁)) es = some (kept r) := by
      intro r
      have hr := h r
      rw [alone] at hr
      rw [hheld r]
      split at hr
      · rename_i heq
        subst heq
        rw [hnow, Option.bind_some] at hr
        rw [if_pos rfl]
        exact hr
      · rename_i hne
        rw [if_neg hne]
        exact hr
    obtain ⟨held', hcustody, hkept⟩ := ih hrest
    refine ⟨held', ?_, hkept⟩
    rw [custody_cons, hact]
    exact hcustody

end OipComms.Custody
