import Mathlib.Algebra.Group.Basic
import Mathlib.Algebra.Order.Monoid.Canonical.Defs
import OipComms.Lib.Sweep

/-!
# Ledgers

Of a store that is handed things and gives things back it is asked that nothing is lost: what it held
and was handed is what it holds and gave back. `Balanced` says so of one operation, over any
quantities that can be added, and composes: one operation after another, beside what is not touched,
and over all entries of a map.

Where a loss is charged to what is given back, an account that was right stays right if and only if
the loss is zero (`account_iff`).
-/

namespace OipComms.Ledger

open Sweep

universe u v z

variable {M : Type z} [AddCommMonoid M]

/-- What was held and was handed out is what is held and was given back. -/
def Balanced (held taken held' given : M) : Prop := held + taken = held' + given

section
variable {x a x' b y a' x'' b' : M}

theorem Balanced.refl (x : M) : Balanced x 0 x 0 := rfl

theorem Balanced.of_eq (h : x = x') : Balanced x 0 x' 0 := congrArg (· + 0) h

/-- One operation after another. -/
theorem Balanced.trans (h : Balanced x a x' b) (h' : Balanced x' a' x'' b') :
    Balanced x (a + a') x'' (b + b') := by
  have h : x + a = x' + b := h
  have h' : x' + a' = x'' + b' := h'
  show x + (a + a') = x'' + (b + b')
  rw [← add_assoc, h, add_right_comm, h', add_assoc, add_comm b' b]

/-- Beside what is not touched. -/
theorem Balanced.add_right (h : Balanced x a x' b) (y : M) : Balanced (x + y) a (x' + y) b := by
  have h : x + a = x' + b := h
  show x + y + a = x' + y + b
  rw [add_right_comm, h, add_right_comm]

theorem Balanced.add_left (h : Balanced x a x' b) (y : M) : Balanced (y + x) a (y + x') b := by
  rw [add_comm y x, add_comm y x']
  exact h.add_right y

/-- Two operations side by side. -/
theorem Balanced.add (h : Balanced x a x' b) (h' : Balanced y a' x'' b') :
    Balanced (x + y) (a + a') (x' + x'') (b + b') :=
  (h.add_right y).trans (h'.add_left x')

/-- What is handed out and kept. -/
theorem Balanced.take (x a : M) : Balanced x a (x + a) 0 := (add_zero _).symm

end

/-- An account that was right stays so if and only if nothing is lost. -/
theorem account_iff [IsCancelAdd M] {held taken held' given lost handed back : M}
    (h : Balanced held taken held' (given + lost)) (haccount : handed = held + back) :
    handed + taken = held' + (back + given) ↔ lost = 0 := by
  have h : held + taken = held' + (given + lost) := h
  have hnow : handed + taken = held' + (back + given) + lost := by
    calc handed + taken = held + taken + back := by rw [haccount, add_right_comm]
      _ = held' + (given + lost) + back := by rw [h]
      _ = held' + (back + given) + lost := by
        rw [add_assoc, add_right_comm, add_comm given, ← add_assoc]
  rw [hnow]
  exact add_eq_left

/-! ## Maps -/

section
variable {κ : Type u} [Ord κ] [Std.TransOrd κ] [Std.LawfulEqOrd κ] {α : Type v}

omit [Std.LawfulEqOrd κ] in
theorem total_add (f g : κ → α → M) (m : Std.ExtTreeMap κ α) :
    total (fun k a => f k a + g k a) m = total f m + total g m := by
  rw [total, total, total]
  exact List.sum_map_add

/-- An operation on every entry of a map. -/
theorem Balanced.map {held taken given : κ → α → M} {f : κ → α → α} {m : Std.ExtTreeMap κ α}
    {held' : κ → α → M}
    (h : ∀ k a, m[k]? = some a → Balanced (held k a) (taken k a) (held' k (f k a)) (given k a)) :
    Balanced (total held m) (total taken m) (total held' (m.map f)) (total given m) := by
  show total held m + total taken m = total held' (m.map f) + total given m
  rw [total_map, ← total_add, ← total_add]
  exact total_congr _ h

/-- An operation on one entry of a map, that may be new. -/
theorem Balanced.insert {held : κ → α → M} {m : Std.ExtTreeMap κ α} {k : κ} {a' : α}
    {taken given : M} (hnew : m[k]? = none → Balanced 0 taken (held k a') given)
    (hold : ∀ a, m[k]? = some a → Balanced (held k a) taken (held k a') given) :
    Balanced (total held m) taken (total held (m.insert k a')) given := by
  cases hget : m[k]? with
  | none =>
    have hbalanced := (hnew hget).add_right (total held m)
    rw [zero_add] at hbalanced
    rw [total_insert_new held hget]
    exact hbalanced
  | some a =>
    rw [total_insert, total_of_getElem? held hget]
    exact (hold a hget).add_right _

/-- A quantity that is zero everywhere or nowhere missed. -/
theorem total_eq_zero_iff [PartialOrder M] [CanonicallyOrderedAdd M] {held : κ → α → M}
    {m : Std.ExtTreeMap κ α} :
    total held m = 0 ↔ ∀ k a, m[k]? = some a → held k a = 0 := by
  constructor
  · intro hzero k a hget
    rw [total_of_getElem? held hget] at hzero
    exact (add_eq_zero.mp hzero).1
  · exact total_eq_zero held

end

end OipComms.Ledger
