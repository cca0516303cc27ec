import Mathlib.Algebra.BigOperators.Group.List.Basic
import Mathlib.Algebra.Group.Defs
import Mathlib.Algebra.GroupWithZero.Nat
import Std.Data.ExtTreeMap

/-!
# Sweeps over a map, and totals

A sweep goes through the entries of a map in order. Each turn makes of an entry another, says what it
adds to an account, and whether the sweep goes on. The turns do not see each other, so a sweep is
known by its turns: an entry is left or is what its turn makes of it, and if the sweep completes,
every entry is.

The total of a quantity over a map is the sum of what its entries have. A law of one turn, that what
the entry had and took in is what it has and gave out, is a law of the sweep (`total_sweep`).
-/

namespace OipComms.Sweep

universe u v w z

section Totals

variable {κ : Type u} [Ord κ] [Std.TransOrd κ] {α : Type v} {M : Type z} [AddCommMonoid M]

/-! ## Totals -/

/-- The sum of a quantity over the entries of a map. -/
def total (f : κ → α → M) (m : Std.ExtTreeMap κ α) : M := (m.toList.map fun x => f x.1 x.2).sum

/-- How many entries satisfy a test. -/
def count (p : α → Bool) (m : Std.ExtTreeMap κ α) : Nat := m.toList.countP fun x => p x.2

/-- What an entry adds to the count. -/
def weight (p : α → Bool) (_ : κ) (a : α) : Nat := if p a then 1 else 0

/-- A key is there once. -/
theorem nodup_keys (m : Std.ExtTreeMap κ α) : (m.toList.map Prod.fst).Nodup := by
  rw [Std.ExtTreeMap.map_fst_toList_eq_keys]
  exact Std.ExtTreeMap.nodup_keys

/-- A key stands in one place. -/
theorem not_mem_of_split {m : Std.ExtTreeMap κ α} {front rest : List (κ × α)} {x : κ × α}
    (h : m.toList = front ++ x :: rest) : x.1 ∉ rest.map Prod.fst := by
  have hnodup := nodup_keys m
  rw [h, List.map_append, List.map_cons] at hnodup
  exact (List.nodup_cons.mp (List.nodup_append.mp hnodup).2.1).1

@[simp] theorem total_empty (f : κ → α → M) : total f (∅ : Std.ExtTreeMap κ α) = 0 := rfl

/-- A sum over a map whose entries are another's with one more. -/
theorem total_of_perm (f : κ → α → M) {m m' : Std.ExtTreeMap κ α} {k : κ} {a : α}
    (h : m'.toList.Perm ((k, a) :: m.toList)) : total f m' = f k a + total f m := by
  rw [total, (h.map fun x => f x.1 x.2).sum_eq, List.map_cons, List.sum_cons, total]

/-- The sum over a map that was changed. -/
theorem total_map {β : Type v} (f : κ → α → M) (g : κ → β → α) (m : Std.ExtTreeMap κ β) :
    total f (m.map g) = total (fun k a => f k (g k a)) m := by
  rw [total, Std.ExtTreeMap.toList_map, List.map_map]
  rfl

/-- A count is the sum of ones and zeros. -/
theorem count_eq_total (p : α → Bool) (m : Std.ExtTreeMap κ α) :
    count p m = total (weight p) m := by
  rw [count, total]
  induction m.toList with
  | nil => rfl
  | cons x l ih => rw [List.countP_cons, List.map_cons, List.sum_cons, ih, weight, Nat.add_comm]

/-- A count is at most the size. -/
theorem count_le_size (p : α → Bool) (m : Std.ExtTreeMap κ α) : count p m ≤ m.size := by
  rw [count, ← Std.ExtTreeMap.length_toList]
  exact List.countP_le_length

variable [Std.LawfulEqOrd κ]

theorem nodup_toList (m : Std.ExtTreeMap κ α) : m.toList.Nodup := by
  refine List.Pairwise.imp ?_ (Std.ExtTreeMap.distinct_keys_toList (t := m))
  intro x y hne heq
  exact hne (heq ▸ Std.ReflCmp.compare_self)

/-- What a map holds after an entry is stored. -/
theorem getElem?_insert_iff (m : Std.ExtTreeMap κ α) (k k' : κ) (a a' : α) :
    (m.insert k a)[k']? = some a' ↔ k' = k ∧ a' = a ∨ k' ≠ k ∧ m[k']? = some a' := by
  rw [Std.ExtTreeMap.getElem?_insert]
  by_cases heq : k' = k
  · subst heq
    simp only [Std.ReflCmp.compare_self, if_true, Option.some.injEq, true_and, ne_eq,
      not_true_eq_false, false_and, or_false]
    exact eq_comm
  · have hcmp : ¬ compare k k' = .eq := fun hcmp => heq (Std.LawfulEqCmp.eq_of_compare hcmp).symm
    simp only [if_neg hcmp, heq, ne_eq, not_false_eq_true, true_and, false_and, false_or]

/-- What a map holds after an entry is erased. -/
theorem getElem?_erase_iff (m : Std.ExtTreeMap κ α) (k k' : κ) (a : α) :
    (m.erase k)[k']? = some a ↔ k' ≠ k ∧ m[k']? = some a := by
  rw [Std.ExtTreeMap.getElem?_erase]
  by_cases heq : k' = k
  · subst heq
    simp only [Std.ReflCmp.compare_self, if_true, reduceCtorEq, ne_eq, not_true_eq_false,
      false_and]
  · have hcmp : ¬ compare k k' = .eq := fun hcmp => heq (Std.LawfulEqCmp.eq_of_compare hcmp).symm
    simp only [if_neg hcmp, heq, ne_eq, not_false_eq_true, true_and]

/-- A map that is changed after an entry is stored. -/
theorem map_insert {β : Type v} (f : κ → α → β) (m : Std.ExtTreeMap κ α) (k : κ) (a : α) :
    (m.insert k a).map f = (m.map f).insert k (f k a) := by
  ext k' b
  rw [Std.ExtTreeMap.getElem?_map, Option.map_eq_some_iff]
  simp only [getElem?_insert_iff, Std.ExtTreeMap.getElem?_map, Option.map_eq_some_iff]
  constructor
  · rintro ⟨a', ⟨rfl, rfl⟩ | ⟨hne, hget⟩, rfl⟩
    · exact .inl ⟨rfl, rfl⟩
    · exact .inr ⟨hne, a', hget, rfl⟩
  · rintro (⟨rfl, rfl⟩ | ⟨hne, a', hget, rfl⟩)
    · exact ⟨a, .inl ⟨rfl, rfl⟩, rfl⟩
    · exact ⟨a', .inr ⟨hne, hget⟩, rfl⟩

/-- An entry that looks as the one it takes the place of. -/
theorem map_insert_same {β : Type v} (f : κ → α → β) {m : Std.ExtTreeMap κ α} {k : κ} {a a' : α}
    (hget : m[k]? = some a) (hsame : f k a' = f k a) : (m.insert k a').map f = m.map f := by
  ext k' b
  rw [Std.ExtTreeMap.getElem?_map, Option.map_eq_some_iff, Std.ExtTreeMap.getElem?_map,
    Option.map_eq_some_iff]
  simp only [getElem?_insert_iff]
  constructor
  · rintro ⟨a'', ⟨rfl, rfl⟩ | ⟨-, hget'⟩, rfl⟩
    · exact ⟨a, hget, hsame.symm⟩
    · exact ⟨a'', hget', rfl⟩
  · rintro ⟨a'', hget', rfl⟩
    by_cases heq : k' = k
    · subst heq
      cases hget.symm.trans hget'
      exact ⟨a', .inl ⟨rfl, rfl⟩, hsame⟩
    · exact ⟨a'', .inr ⟨heq, hget'⟩, rfl⟩

/-- The entries of a map with one more, in some order. -/
theorem toList_insert_perm (m : Std.ExtTreeMap κ α) (k : κ) (a : α) :
    (m.insert k a).toList.Perm ((k, a) :: (m.erase k).toList) := by
  refine (List.perm_ext_iff_of_nodup (nodup_toList _)
    (List.nodup_cons.mpr ⟨?_, nodup_toList _⟩)).mpr ?_
  · rw [Std.ExtTreeMap.mem_toList_iff_getElem?_eq_some, getElem?_erase_iff]
    exact fun h => h.1 rfl
  · rintro ⟨k', a'⟩
    rw [List.mem_cons, Std.ExtTreeMap.mem_toList_iff_getElem?_eq_some, getElem?_insert_iff,
      Std.ExtTreeMap.mem_toList_iff_getElem?_eq_some, getElem?_erase_iff, Prod.mk.injEq]

/-- An entry of a map and the others, in some order. -/
theorem toList_perm_of_getElem? {m : Std.ExtTreeMap κ α} {k : κ} {a : α} (h : m[k]? = some a) :
    m.toList.Perm ((k, a) :: (m.erase k).toList) := by
  refine (List.perm_ext_iff_of_nodup (nodup_toList _)
    (List.nodup_cons.mpr ⟨?_, nodup_toList _⟩)).mpr ?_
  · rw [Std.ExtTreeMap.mem_toList_iff_getElem?_eq_some, getElem?_erase_iff]
    exact fun hmem => hmem.1 rfl
  · rintro ⟨k', a'⟩
    rw [List.mem_cons, Std.ExtTreeMap.mem_toList_iff_getElem?_eq_some,
      Std.ExtTreeMap.mem_toList_iff_getElem?_eq_some, getElem?_erase_iff, Prod.mk.injEq]
    by_cases heq : k' = k
    · subst heq
      rw [h, Option.some.injEq]
      simp only [true_and, ne_eq, not_true_eq_false, false_and, or_false]
      exact eq_comm
    · simp only [heq, false_and, ne_eq, not_false_eq_true, true_and, false_or]

/-- An entry is replaced where it stands. -/
theorem toList_insert_of_split [DecidableEq κ] {m : Std.ExtTreeMap κ α} {front rest : List (κ × α)}
    {k : κ} {a : α} (h : m.toList = front ++ (k, a) :: rest) (a' : α) :
    (m.insert k a').toList = front ++ (k, a') :: rest := by
  have hmap : m.insert k a' = m.map fun k' b => if k' = k then a' else b := by
    ext k' b
    rw [getElem?_insert_iff, Std.ExtTreeMap.getElem?_map, Option.map_eq_some_iff]
    by_cases heq : k' = k
    · subst heq
      have hget : m[k']? = some a := by
        rw [← Std.ExtTreeMap.mem_toList_iff_getElem?_eq_some, h]
        exact List.mem_append_right _ List.mem_cons_self
      simp only [hget, true_and, ne_eq, not_true_eq_false, false_and, or_false, if_true,
        Option.some.injEq, exists_eq_left']
      exact eq_comm
    · simp only [heq, false_and, ne_eq, not_false_eq_true, true_and, false_or, if_false,
        exists_eq_right]
  have hnodup := nodup_keys m
  rw [h, List.map_append, List.map_cons] at hnodup
  have hfront : k ∉ front.map Prod.fst := fun hk =>
    (List.nodup_append.mp hnodup).2.2 k hk k List.mem_cons_self rfl
  have hrest := not_mem_of_split h
  have hkeep : ∀ l : List (κ × α), k ∉ l.map Prod.fst →
      l.map (fun x => (x.1, if x.1 = k then a' else x.2)) = l := by
    intro l hl
    refine (List.map_congr_left fun x hx => ?_).trans (List.map_id l)
    have hne : x.1 ≠ k := by
      rintro rfl
      exact hl (List.mem_map_of_mem hx)
    rw [if_neg hne]
    rfl
  rw [hmap, Std.ExtTreeMap.toList_map, h, List.map_append, List.map_cons, hkeep front hfront,
    hkeep rest hrest, if_pos rfl]

/-- The last key of an initial part of a map comes before what is behind it, and before nothing in
it. -/
theorem find?_behind {m : Std.ExtTreeMap κ α} {front rest : List (κ × α)}
    (h : m.toList = front ++ rest) :
    (m.toList.find? fun x => (front.getLast?.map Prod.fst).all fun k => compare k x.1 = .lt) =
      rest.head? := by
  have hordered := Std.ExtTreeMap.ordered_keys_toList (t := m)
  rw [h, List.pairwise_append] at hordered
  obtain ⟨hfront, -, hacross⟩ := hordered
  rw [h]
  rcases List.eq_nil_or_concat front with rfl | ⟨front, z, rfl⟩
  · cases rest with
    | nil => rfl
    | cons x rest => exact List.find?_cons_of_pos rfl
  · rw [List.concat_eq_append] at hfront hacross ⊢
    rw [List.getLast?_concat, Option.map_some]
    have hnone : (front ++ [z]).find? (fun x => (some z.1).all fun k => compare k x.1 = .lt) = none := by
      refine List.find?_eq_none.mpr fun y hy hlt => ?_
      rw [Option.all_some, decide_eq_true_eq] at hlt
      rcases List.mem_append.mp hy with hy | hy
      · have hback := (List.pairwise_append.mp hfront).2.2 y hy z List.mem_cons_self
        exact absurd (Std.OrientedCmp.gt_of_lt hback) (by rw [hlt]; exact Ordering.noConfusion)
      · rw [List.mem_singleton.mp hy] at hlt
        exact absurd (Std.ReflCmp.compare_self.symm.trans hlt) Ordering.noConfusion
    rw [List.find?_append, hnone, Option.none_or]
    cases rest with
    | nil => rfl
    | cons x rest =>
      refine List.find?_cons_of_pos ?_
      rw [Option.all_some, decide_eq_true_eq]
      exact hacross z (List.mem_append_right front List.mem_cons_self) x List.mem_cons_self

section
variable (f : κ → α → M)

/-- An entry that is stored adds its part, in the place of the one before. -/
theorem total_insert (m : Std.ExtTreeMap κ α) (k : κ) (a : α) :
    total f (m.insert k a) = f k a + total f (m.erase k) :=
  total_of_perm f (toList_insert_perm m k a)

/-- An entry has its part in the sum. -/
theorem total_of_getElem? {m : Std.ExtTreeMap κ α} {k : κ} {a : α} (h : m[k]? = some a) :
    total f m = f k a + total f (m.erase k) :=
  total_of_perm f (toList_perm_of_getElem? h)

/-- What is not there has no part in the sum. -/
theorem total_erase_of_none {m : Std.ExtTreeMap κ α} {k : κ} (h : m[k]? = none) :
    total f (m.erase k) = total f m := by
  have hperm : (m.erase k).toList.Perm m.toList := by
    refine (List.perm_ext_iff_of_nodup (nodup_toList _) (nodup_toList _)).mpr ?_
    rintro ⟨k', a⟩
    rw [Std.ExtTreeMap.mem_toList_iff_getElem?_eq_some,
      Std.ExtTreeMap.mem_toList_iff_getElem?_eq_some, getElem?_erase_iff]
    refine ⟨And.right, fun hsome => ⟨fun heq => ?_, hsome⟩⟩
    rw [heq, h] at hsome
    cases hsome
  rw [total, (hperm.map fun x => f x.1 x.2).sum_eq, total]

/-- A new entry. -/
theorem total_insert_new {m : Std.ExtTreeMap κ α} {k : κ} (h : m[k]? = none) (a : α) :
    total f (m.insert k a) = f k a + total f m := by
  rw [total_insert, total_erase_of_none f h]

/-- An entry put in the place of another that has as much. -/
theorem total_replace_same {m : Std.ExtTreeMap κ α} {k : κ} {a a' : α} (h : m[k]? = some a)
    (hsame : f k a' = f k a) : total f (m.insert k a') = total f m := by
  rw [total_insert, total_of_getElem? f h, hsame]

/-- A sum is that of the entries that are there. -/
theorem total_congr {g : κ → α → M} {m : Std.ExtTreeMap κ α}
    (h : ∀ k a, m[k]? = some a → f k a = g k a) : total f m = total g m := by
  rw [total, total]
  refine congrArg List.sum (List.map_congr_left fun x hx => ?_)
  exact h x.1 x.2 (Std.ExtTreeMap.mem_toList_iff_getElem?_eq_some.mp hx)

/-- A sum of zeros is zero. -/
theorem total_eq_zero {m : Std.ExtTreeMap κ α} (h : ∀ k a, m[k]? = some a → f k a = 0) :
    total f m = 0 := by
  rw [total_congr f (g := fun _ _ => 0) h, total]
  refine List.sum_eq_zero fun x hx => ?_
  obtain ⟨y, -, rfl⟩ := List.mem_map.mp hx
  rfl

end

/-- All entries satisfy a test when as many do as there are. -/
theorem all_of_size_le_count {p : α → Bool} {m : Std.ExtTreeMap κ α} (h : m.size ≤ count p m)
    {k : κ} {a : α} (hget : m[k]? = some a) : p a = true := by
  have hlength : m.toList.countP (fun x => p x.2) = m.toList.length := by
    refine Nat.le_antisymm List.countP_le_length ?_
    rw [Std.ExtTreeMap.length_toList]
    exact h
  exact List.countP_eq_length.mp hlength (k, a)
    (Std.ExtTreeMap.mem_toList_iff_getElem?_eq_some.mpr hget)

end Totals

/-! ## Sweeps -/

/-- A turn of a sweep: what it makes of the entry, what it adds to the account, and whether the
sweep goes on. -/
structure Swept (α : Type v) (ω : Type w) where
  entry : α
  out : ω
  goes : Bool := true

section Sweeps

variable {κ : Type u} {α : Type v} {ω : Type w} (f : κ → α → Swept α ω)

/-- The entries that have a turn: all up to the first whose turn ends the sweep. -/
def visited : List (κ × α) → List (κ × α)
  | [] => []
  | x :: rest => x :: if (f x.1 x.2).goes then visited rest else []

/-- The entries that are visited, in their order. -/
theorem visited_sublist (l : List (κ × α)) : (visited f l).Sublist l := by
  induction l with
  | nil => exact List.Sublist.refl _
  | cons x rest ih =>
    rw [visited]
    split
    · exact ih.cons_cons x
    · exact (List.nil_sublist rest).cons_cons x

/-- A sweep that no entry ends visits all. -/
theorem visited_of_all {l : List (κ × α)} (h : (l.all fun x => (f x.1 x.2).goes) = true) :
    visited f l = l := by
  induction l with
  | nil => rfl
  | cons x rest ih =>
    rw [List.all_cons, Bool.and_eq_true] at h
    rw [visited, if_pos h.1, ih h.2]

/-- A sweep that does not come to the end is ended by a turn it takes. -/
theorem visited_of_not_all {l : List (κ × α)} (h : (l.all fun x => (f x.1 x.2).goes) = false) :
    ∃ x ∈ visited f l, (f x.1 x.2).goes = false := by
  induction l with
  | nil => cases h
  | cons x rest ih =>
    rw [visited]
    by_cases hgoes : (f x.1 x.2).goes = true
    · rw [List.all_cons, hgoes, Bool.true_and] at h
      obtain ⟨y, hmem, hy⟩ := ih h
      rw [if_pos hgoes]
      exact ⟨y, List.mem_cons_of_mem _ hmem, hy⟩
    · exact ⟨x, List.mem_cons_self, Bool.eq_false_iff.mpr hgoes⟩

variable [DecidableEq κ]

/-- What becomes of an entry. -/
def turned (l : List (κ × α)) (k : κ) (a : α) : α :=
  if k ∈ (visited f l).map Prod.fst then (f k a).entry else a

/-- The first turn is the entry's own. -/
theorem turned_self (x : κ × α) (rest : List (κ × α)) (a : α) :
    turned f (x :: rest) x.1 a = (f x.1 a).entry := by
  rw [turned, visited, List.map_cons, if_pos List.mem_cons_self]

/-- The first turn leaves the other entries to the turns that follow. -/
theorem turned_of_ne {x : κ × α} {k : κ} (hne : k ≠ x.1) (rest : List (κ × α)) (a : α) :
    turned f (x :: rest) k a = if (f x.1 x.2).goes then turned f rest k a else a := by
  rw [turned, visited, List.map_cons]
  simp only [List.mem_cons, hne, false_or]
  split
  · rfl
  · simp only [List.map_nil, List.not_mem_nil, if_false]

/-- What has no turn is left. -/
theorem turned_of_not_mem {l : List (κ × α)} {k : κ} (hk : k ∉ l.map Prod.fst) (a : α) :
    turned f l k a = a :=
  if_neg fun hmem => hk (((visited_sublist f l).map Prod.fst).subset hmem)

variable [Ord κ]

/-- A sweep: the entries it leaves, the account in the order of its turns, and whether it came to
the end. -/
structure Outcome (κ : Type u) [Ord κ] (α : Type v) (ω : Type w) where
  entries : Std.ExtTreeMap κ α
  outs : List ω
  completes : Bool

variable [Std.TransOrd κ]

/-- The sweep of a map. -/
def sweep (m : Std.ExtTreeMap κ α) : Outcome κ α ω where
  entries := m.map (turned f m.toList)
  outs := (visited f m.toList).map fun x => (f x.1 x.2).out
  completes := m.toList.all fun x => (f x.1 x.2).goes

/-- A sweep keeps the keys. -/
@[simp] theorem mem_sweep {m : Std.ExtTreeMap κ α} {k : κ} : k ∈ (sweep f m).entries ↔ k ∈ m :=
  Std.ExtTreeMap.mem_map

/-- A sweep keeps the size. -/
@[simp] theorem size_sweep (m : Std.ExtTreeMap κ α) : (sweep f m).entries.size = m.size := by
  rw [← Std.ExtTreeMap.length_toList, ← Std.ExtTreeMap.length_toList, sweep,
    Std.ExtTreeMap.toList_map, List.length_map]

variable [Std.LawfulEqOrd κ] {M : Type z} [AddCommMonoid M]

theorem map_turned_nil (m : Std.ExtTreeMap κ α) : m.map (turned f []) = m := by
  ext k a
  rw [Std.ExtTreeMap.getElem?_map]
  cases m[k]? with
  | none => rfl
  | some b => rfl

/-- A sweep of what is left of a map begins with a turn. -/
theorem map_turned_cons {m : Std.ExtTreeMap κ α} {x : κ × α} {rest : List (κ × α)}
    (hget : m[x.1]? = some x.2) (hx : x.1 ∉ rest.map Prod.fst) :
    m.map (turned f (x :: rest)) =
      if (f x.1 x.2).goes then (m.insert x.1 (f x.1 x.2).entry).map (turned f rest)
      else m.insert x.1 (f x.1 x.2).entry := by
  have hmap : (m.insert x.1 (f x.1 x.2).entry).map (turned f rest) =
      (m.map (turned f rest)).insert x.1 (f x.1 x.2).entry := by
    rw [map_insert, turned_of_not_mem f hx]
  have hself : ∀ b, (m.map (turned f (x :: rest)))[x.1]? = some b ↔ b = (f x.1 x.2).entry := by
    intro b
    rw [Std.ExtTreeMap.getElem?_map, hget, Option.map_some, turned_self, Option.some.injEq]
    exact eq_comm
  rw [hmap]
  ext k b
  by_cases heq : k = x.1
  · subst heq
    rw [hself]
    split
    · rw [Std.ExtTreeMap.getElem?_insert_self, Option.some.injEq]
      exact eq_comm
    · rw [Std.ExtTreeMap.getElem?_insert_self, Option.some.injEq]
      exact eq_comm
  · rw [Std.ExtTreeMap.getElem?_map, funext (turned_of_ne f heq rest)]
    split
    · rw [getElem?_insert_iff, Std.ExtTreeMap.getElem?_map]
      simp only [heq, false_and, ne_eq, not_false_eq_true, true_and, false_or]
    · rw [getElem?_insert_iff, Option.map_id']
      simp only [heq, false_and, ne_eq, not_false_eq_true, true_and, false_or]

/-- An entry is left as it is, or is what its turn makes of it. -/
theorem getElem?_sweep {m : Std.ExtTreeMap κ α} {k : κ} {a' : α}
    (h : (sweep f m).entries[k]? = some a') :
    ∃ a, m[k]? = some a ∧ (a' = a ∨ a' = (f k a).entry) := by
  rw [sweep, Std.ExtTreeMap.getElem?_map] at h
  obtain ⟨a, hget, hturned⟩ := Option.map_eq_some_iff.mp h
  refine ⟨a, hget, ?_⟩
  rw [← hturned, turned]
  split
  · exact .inr rfl
  · exact .inl rfl

/-- A sweep that comes to the end leaves no entry without its turn. -/
theorem getElem?_of_completes {m : Std.ExtTreeMap κ α} (hcompletes : (sweep f m).completes = true)
    {k : κ} {a' : α} (h : (sweep f m).entries[k]? = some a') :
    ∃ a, m[k]? = some a ∧ a' = (f k a).entry ∧ (f k a).goes = true := by
  rw [sweep, Std.ExtTreeMap.getElem?_map] at h
  obtain ⟨a, hget, hturned⟩ := Option.map_eq_some_iff.mp h
  have hmem : (k, a) ∈ m.toList := Std.ExtTreeMap.mem_toList_iff_getElem?_eq_some.mpr hget
  refine ⟨a, hget, ?_, List.all_eq_true.mp hcompletes (k, a) hmem⟩
  rw [← hturned, turned, visited_of_all f hcompletes, if_pos (List.mem_map_of_mem hmem)]

/-- What is in the account, a turn has added. -/
theorem mem_outs {m : Std.ExtTreeMap κ α} {o : ω} (h : o ∈ (sweep f m).outs) :
    ∃ k a, m[k]? = some a ∧ o = (f k a).out := by
  obtain ⟨x, hmem, rfl⟩ := List.mem_map.mp h
  exact ⟨x.1, x.2, Std.ExtTreeMap.mem_toList_iff_getElem?_eq_some.mp
    ((visited_sublist f m.toList).subset hmem), rfl⟩

/-- What ends a sweep is in its account. -/
theorem out_mem_of_not_completes {m : Std.ExtTreeMap κ α}
    (hcompletes : (sweep f m).completes = false) :
    ∃ k a, m[k]? = some a ∧ (f k a).goes = false ∧ (f k a).out ∈ (sweep f m).outs := by
  obtain ⟨x, hmem, hgoes⟩ := visited_of_not_all f hcompletes
  exact ⟨x.1, x.2, Std.ExtTreeMap.mem_toList_iff_getElem?_eq_some.mp
    ((visited_sublist f m.toList).subset hmem), hgoes,
    List.mem_map_of_mem (f := fun x : κ × α => (f x.1 x.2).out) hmem⟩

/-- A sweep that has nothing in its account which ends one comes to the end. -/
theorem completes_of_no_end {ends : ω → Bool} {m : Std.ExtTreeMap κ α}
    (hends : ∀ k a, (f k a).goes = false → ends (f k a).out = true)
    (hno : (sweep f m).outs.any ends = false) : (sweep f m).completes = true := by
  cases hcompletes : (sweep f m).completes with
  | true => rfl
  | false =>
    obtain ⟨k, a, -, hgoes, hmem⟩ := out_mem_of_not_completes f hcompletes
    have hyes := List.any_eq_true.mpr ⟨_, hmem, hends k a hgoes⟩
    exact absurd (hno.symm.trans hyes) Bool.false_ne_true

/-- What every turn that does not end a sweep leaves its entry with, a sweep that comes to the end
leaves every entry with. -/
theorem exists_of_completes {p : α → Bool} {m : Std.ExtTreeMap κ α}
    (hcompletes : (sweep f m).completes = true)
    (hturn : ∀ k a, (f k a).goes = true → p (f k a).entry = true) {k : κ} (hmem : k ∈ m) :
    ∃ a, (sweep f m).entries[k]? = some a ∧ p a = true := by
  have hswept := Std.ExtTreeMap.getElem?_eq_some_getElem ((mem_sweep f).mpr hmem)
  obtain ⟨a, -, hentry, hgoes⟩ := getElem?_of_completes f hcompletes hswept
  refine ⟨_, hswept, ?_⟩
  rw [hentry]
  exact hturn k a hgoes

/-- If in each turn what the entry had and took in is what it has and gave out, the same holds of
the sweep. -/
theorem total_sweep (μ : κ → α → M) (taken given : ω → M) {m : Std.ExtTreeMap κ α}
    (h : ∀ k a, m[k]? = some a →
      μ k a + taken (f k a).out = μ k (f k a).entry + given (f k a).out) :
    total μ m + ((sweep f m).outs.map taken).sum =
      total μ (sweep f m).entries + ((sweep f m).outs.map given).sum := by
  rw [sweep, total_map, total, total, List.map_map, List.map_map]
  have hlaw : ∀ x ∈ m.toList,
      μ x.1 x.2 + taken (f x.1 x.2).out = μ x.1 (f x.1 x.2).entry + given (f x.1 x.2).out :=
    fun x hx => h x.1 x.2 (Std.ExtTreeMap.mem_toList_iff_getElem?_eq_some.mp hx)
  have hnodup := nodup_keys m
  generalize m.toList = l at hlaw hnodup
  induction l with
  | nil => rfl
  | cons x rest ih =>
    obtain ⟨hx, hrest⟩ := List.nodup_cons.mp hnodup
    have hothers : ∀ y ∈ rest, turned f (x :: rest) y.1 y.2 =
        if (f x.1 x.2).goes then turned f rest y.1 y.2 else y.2 := by
      intro y hy
      have hne : y.1 ≠ x.1 := fun heq => hx (heq ▸ List.mem_map_of_mem hy)
      exact turned_of_ne f hne rest y.2
    have hfirst := hlaw x List.mem_cons_self
    have hrest := ih (fun y hy => hlaw y (List.mem_cons_of_mem _ hy)) hrest
    simp only [List.map_cons, List.sum_cons, visited, turned_self]
    rw [List.map_congr_left fun y hy => congrArg (μ y.1) (hothers y hy)]
    split
    · simp only [Function.comp_apply]
      rw [add_add_add_comm, hfirst, hrest, add_add_add_comm]
    · simp only [Function.comp_apply, List.map_nil, List.sum_nil, add_zero]
      rw [add_right_comm, hfirst, add_right_comm]

/-- If each turn adds to the account the entry that comes to satisfy the test, the sweep adds all
that do. -/
theorem count_sweep (p : α → Bool) (added : ω → Nat) {m : Std.ExtTreeMap κ α}
    (h : ∀ k a, m[k]? = some a →
      (if p a then 1 else 0) + added (f k a).out = if p (f k a).entry then 1 else 0) :
    count p m + ((sweep f m).outs.map added).sum = count p (sweep f m).entries := by
  have htotal := total_sweep f (weight p) added (fun _ => 0) (m := m) fun k a hget => by
    rw [weight, weight, add_zero]
    exact h k a hget
  rw [count_eq_total, count_eq_total, htotal, List.map_const', List.sum_replicate, nsmul_zero,
    add_zero]

end Sweeps

end OipComms.Sweep
