import Mathlib.Order.Bounds.Basic

/-!
# The hull of a set of ranges

A set of half-open ranges `(lo, hi)` over a linear order, and the smallest range that contains them
all. `Hull R lo hi` names its two ends; `hull_insert_iff` is the rule an incremental computation is
checked with: one more range moves the ends by `min` and `max`, and by nothing else.
-/

namespace OipComms

universe u

variable {α : Type u} [LinearOrder α]

/-- `lo` is the least lower end and `hi` the greatest upper end over `R`. -/
structure Hull (R : Set (α × α)) (lo hi : α) : Prop where
  isLeast : IsLeast (Prod.fst '' R) lo
  isGreatest : IsGreatest (Prod.snd '' R) hi

/-- Every range lies in the hull. -/
theorem Hull.contains {R : Set (α × α)} {lo hi : α} (h : Hull R lo hi) {r : α × α} (hr : r ∈ R) :
    lo ≤ r.1 ∧ r.2 ≤ hi :=
  ⟨h.isLeast.2 (Set.mem_image_of_mem _ hr), h.isGreatest.2 (Set.mem_image_of_mem _ hr)⟩

theorem Hull.unique {R : Set (α × α)} {lo hi lo' hi' : α} (h : Hull R lo hi)
    (h' : Hull R lo' hi') : lo = lo' ∧ hi = hi' :=
  ⟨h.isLeast.unique h'.isLeast, h.isGreatest.unique h'.isGreatest⟩

theorem hull_singleton (a b : α) : Hull {(a, b)} a b := by
  constructor
  · rw [Set.image_singleton]
    exact isLeast_singleton
  · rw [Set.image_singleton]
    exact isGreatest_singleton

theorem Hull.insert {R : Set (α × α)} {lo hi : α} (h : Hull R lo hi) (a b : α) :
    Hull (insert (a, b) R) (min a lo) (max b hi) := by
  constructor
  · rw [Set.image_insert_eq]
    exact h.isLeast.insert a
  · rw [Set.image_insert_eq]
    exact h.isGreatest.insert b

/-- The hull after one more range, and no other. -/
theorem Hull.insert_iff {R : Set (α × α)} {lo hi : α} (h : Hull R lo hi) {a b lo' hi' : α} :
    Hull (Insert.insert (a, b) R) lo' hi' ↔ lo' = min a lo ∧ hi' = max b hi := by
  constructor
  · intro h'
    exact h'.unique (h.insert a b)
  · rintro ⟨rfl, rfl⟩
    exact h.insert a b

theorem hull_singleton_iff {a b lo hi : α} : Hull {(a, b)} lo hi ↔ lo = a ∧ hi = b := by
  constructor
  · intro h
    exact h.unique (hull_singleton a b)
  · rintro ⟨rfl, rfl⟩
    exact hull_singleton lo hi

end OipComms
