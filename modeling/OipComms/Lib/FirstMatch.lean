import Mathlib.Data.List.Basic

/-!
# Updating the first match of a list

A vector of objects searched from the front, where the first one that satisfies a test is acted on
in place. `firstMatch` returns what the action answered and the list with that one element
replaced; its one law, `firstMatch_append`, computes it on a list that is split at the match.
-/

namespace OipComms.FirstMatch

universe u v w

variable {α : Type u} {β : Type v}

/-- Act on the first element that satisfies `p`; `none` when no element does. -/
def firstMatch (p : α → Bool) (f : α → β × α) : List α → Option (β × List α)
  | [] => none
  | a :: rest =>
    if p a then some ((f a).1, (f a).2 :: rest)
    else (firstMatch p f rest).map fun r => (r.1, a :: r.2)

/-- The first match, and nothing but the first match, is acted on. -/
theorem firstMatch_append {p : α → Bool} (f : α → β × α) {front : List α} {a : α}
    (rest : List α) (hfront : ∀ x ∈ front, p x = false) (ha : p a = true) :
    firstMatch p f (front ++ a :: rest) = some ((f a).1, front ++ (f a).2 :: rest) := by
  induction front with
  | nil => simp only [List.nil_append, firstMatch, ha, if_true]
  | cons x front ih =>
    have hx := hfront x List.mem_cons_self
    have hrest := ih fun y hy => hfront y (List.mem_cons_of_mem _ hy)
    simp only [List.cons_append, firstMatch, hx, hrest, Option.map_some, Bool.false_eq_true, if_false]

theorem firstMatch_none {p : α → Bool} (f : α → β × α) {l : List α}
    (h : ∀ x ∈ l, p x = false) : firstMatch p f l = none := by
  induction l with
  | nil => rfl
  | cons x l ih =>
    have hx := h x List.mem_cons_self
    have hrest := ih fun y hy => h y (List.mem_cons_of_mem _ hy)
    simp only [firstMatch, hx, hrest, Option.map_none, Bool.false_eq_true, if_false]

/-- Where a search ends, an action that keeps the test leaves the element for the next search. -/
theorem firstMatch_of_find {p : α → Bool} (f : α → β × α) {l : List α} {a : α}
    (h : l.find? p = some a) (hp : p (f a).2 = true) :
    ∃ l', firstMatch p f l = some ((f a).1, l') ∧ l'.find? p = some (f a).2 := by
  induction l with
  | nil => cases h
  | cons x l ih =>
    by_cases hx : p x = true
    · rw [List.find?_cons_of_pos hx] at h
      obtain rfl := Option.some.inj h
      refine ⟨(f x).2 :: l, ?_, List.find?_cons_of_pos hp⟩
      rw [firstMatch, if_pos hx]
    · rw [List.find?_cons_of_neg hx] at h
      obtain ⟨l', hmatch, hfind⟩ := ih h
      refine ⟨x :: l', ?_, ?_⟩
      · rw [firstMatch, if_neg hx, hmatch, Option.map_some]
      · rw [List.find?_cons_of_neg hx, hfind]

/-- What an action leaves of every element, it leaves of the list. -/
theorem map_firstMatch {γ : Type w} {p : α → Bool} {f : α → β × α} {g : α → γ}
    (hf : ∀ a, g (f a).2 = g a) {l l' : List α} {b : β} (h : firstMatch p f l = some (b, l')) :
    l'.map g = l.map g := by
  induction l generalizing l' with
  | nil => cases h
  | cons a l ih =>
    rw [firstMatch] at h
    split at h
    · obtain ⟨rfl, rfl⟩ := Prod.mk.inj (Option.some.inj h)
      rw [List.map_cons, List.map_cons, hf]
    · obtain ⟨⟨b', rest⟩, hrest, heq⟩ := Option.map_eq_some_iff.mp h
      obtain ⟨rfl, rfl⟩ := Prod.mk.inj heq
      rw [List.map_cons, List.map_cons, ih hrest]

/-- The answer is that of the action on an element. -/
theorem firstMatch_fst {p : α → Bool} {f : α → β × α} {l l' : List α} {b : β}
    (h : firstMatch p f l = some (b, l')) : ∃ a ∈ l, b = (f a).1 := by
  induction l generalizing l' with
  | nil => cases h
  | cons a l ih =>
    rw [firstMatch] at h
    split at h
    · obtain ⟨rfl, rfl⟩ := Prod.mk.inj (Option.some.inj h)
      exact ⟨a, List.mem_cons_self, rfl⟩
    · obtain ⟨⟨b', rest⟩, hrest, heq⟩ := Option.map_eq_some_iff.mp h
      obtain ⟨rfl, rfl⟩ := Prod.mk.inj heq
      obtain ⟨a', ha', hb⟩ := ih hrest
      exact ⟨a', List.mem_cons_of_mem _ ha', hb⟩

/-- `find?` on a list split at the match. -/
theorem find?_append_cons {p : α → Bool} {front : List α} {a : α} (rest : List α)
    (hfront : ∀ x ∈ front, p x = false) (ha : p a = true) :
    (front ++ a :: rest).find? p = some a := by
  have hnone : front.find? p = none :=
    List.find?_eq_none.mpr fun x hx => by simp only [hfront x hx, Bool.false_eq_true, not_false_eq_true]
  rw [List.find?_append, hnone, Option.none_or, List.find?_cons_of_pos ha]

/-- `eraseP` on a list split at the match. -/
theorem eraseP_append_cons {p : α → Bool} {front : List α} {a : α} (rest : List α)
    (hfront : ∀ x ∈ front, p x = false) (ha : p a = true) :
    (front ++ a :: rest).eraseP p = front ++ rest := by
  have hmiss : ∀ x ∈ front, ¬ p x = true := fun x hx => by
    simp only [hfront x hx, Bool.false_eq_true, not_false_eq_true]
  rw [List.eraseP_append_right _ hmiss, List.eraseP_cons_of_pos ha]

end OipComms.FirstMatch
