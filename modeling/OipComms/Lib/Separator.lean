import Mathlib.Data.List.Basic

/-!
# Splitting at the first separator

`List.idxOf?` finds the first separator of a text; a parser then works on the part before it and the
part behind it. The two rules say that a text is these two parts with the separator between them,
and that any such text is split there.
-/

namespace OipComms.Separator

universe u

variable {α : Type u} [DecidableEq α]

/-- A text is split where the part before the separator ends. -/
theorem idxOf?_append_cons {front : List α} {sep : α} (back : List α) (h : sep ∉ front) :
    (front ++ sep :: back).idxOf? sep = some front.length := by
  induction front with
  | nil => rw [List.nil_append, List.idxOf?_cons, if_pos (beq_self_eq_true sep), List.length_nil]
  | cons a front ih =>
    rw [List.mem_cons, not_or] at h
    have hne : (a == sep) = false := beq_false_of_ne (Ne.symm h.1)
    rw [List.cons_append, List.idxOf?_cons, if_neg (by rw [hne]; exact Bool.false_ne_true), ih h.2]
    rfl

/-- What is found is the first separator, between the two parts. -/
theorem split_of_idxOf? {l : List α} {sep : α} {i : Nat} (h : l.idxOf? sep = some i) :
    l = l.take i ++ sep :: l.drop (i + 1) ∧ sep ∉ l.take i := by
  obtain ⟨hi, hget, hfirst⟩ := List.idxOf?_eq_some_iff.mp h
  constructor
  · rw [← hget, ← List.drop_eq_getElem_cons hi, List.take_append_drop]
  · intro hmem
    obtain ⟨j, hj, hsep⟩ := List.mem_take_iff_getElem.mp hmem
    exact hfirst j (by omega) hsep

end OipComms.Separator
