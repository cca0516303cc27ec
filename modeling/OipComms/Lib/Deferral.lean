import Mathlib.Data.List.Perm.Basic

/-!
# Writes that may be deferred

A component takes writes, each to a slot, and carries a write out at once or keeps it for later. A
slot keeps its last value only, so the writes of a slot that wait are settled together, and a slot
that is settled late is overtaken by the others.

A `Ledger` is the account of such a component: the writes in the order they were issued, in the
order they took effect, and those that wait. It is kept by the two things that happen,
`Ledger.issue` and `Ledger.settle`, and `Ledger.replay_eq` says where the order does not matter,
for writes that put a value whatever was there (`Overwrites`).
-/

namespace OipComms.Deferral

universe u v w

variable {ω : Type u} {μ : Type v} {κ : Type w} {β : Type v} {ι : Type w}

/-- A write that was issued, as which one, and whether it was carried out at once. -/
structure Issued (ω : Type u) where
  op : ω
  number : Nat
  prompt : Bool
  deriving DecidableEq, Repr

/-! ## Replaying -/

/-- The memory after a list of writes. -/
def replay (apply : ω → μ → μ) (ws : List (Issued ω)) (m : μ) : μ :=
  ws.foldl (fun m w => apply w.op m) m

variable {apply : ω → μ → μ} {get : μ → κ → β} {covers : ω → κ → Prop}

/-- A replay goes on from what its first part leaves. -/
theorem replay_append (ws ws' : List (Issued ω)) (m : μ) :
    replay apply (ws ++ ws') m = replay apply ws' (replay apply ws m) := List.foldl_append

/-- Two ways to carry writes out that agree on those there are. -/
theorem replay_agree {apply' : ω → μ → μ} {ws : List (Issued ω)}
    (h : ∀ w ∈ ws, apply w.op = apply' w.op) (m : μ) : replay apply ws m = replay apply' ws m := by
  induction ws generalizing m with
  | nil => rfl
  | cons w ws ih =>
    have hrest := ih (fun x hx => h x (List.mem_cons_of_mem _ hx)) (apply w.op m)
    rw [h w List.mem_cons_self] at hrest
    show replay apply ws (apply w.op m) = replay apply' ws (apply' w.op m)
    rw [h w List.mem_cons_self, hrest]

/-- A write puts values where it covers, whatever was there, and nothing elsewhere. -/
structure Overwrites (apply : ω → μ → μ) (get : μ → κ → β) (covers : ω → κ → Prop) : Prop where
  frame : ∀ w m k, ¬ covers w k → get (apply w m) k = get m k
  sets : ∀ w m m' k, covers w k → get (apply w m) k = get (apply w m') k

namespace Overwrites

variable (h : Overwrites apply get covers)

include h

/-- A replay leaves what none of its operations covers. -/
theorem replay_frame {ws : List (Issued ω)} {k : κ} (hws : ∀ w ∈ ws, ¬ covers w.op k) (m : μ) :
    get (replay apply ws m) k = get m k := by
  induction ws generalizing m with
  | nil => rfl
  | cons w ws ih =>
    have hrest := ih (fun x hx => hws x (List.mem_cons_of_mem _ hx)) (apply w.op m)
    have hfirst := h.frame w.op m k (hws w List.mem_cons_self)
    exact hrest.trans hfirst

/-- What the last write covers is its own. -/
theorem replay_last {ws : List (Issued ω)} {w : Issued ω} {k : κ} (hw : covers w.op k) (m m' : μ) :
    get (replay apply (ws ++ [w]) m) k = get (apply w.op m') k := by
  rw [replay_append]
  exact h.sets w.op _ m' k hw

/-- A replay makes the same of what is the same. -/
theorem replay_congr (ws : List (Issued ω)) {m m' : μ} {k : κ} (hm : get m k = get m' k) :
    get (replay apply ws m) k = get (replay apply ws m') k := by
  induction ws generalizing m m' with
  | nil => exact hm
  | cons w ws ih =>
    apply ih
    by_cases hw : covers w.op k
    · exact h.sets w.op m m' k hw
    · rw [h.frame w.op m k hw, h.frame w.op m' k hw, hm]

/-- One place is a matter of the writes that cover it. -/
theorem replay_filter (ws : List (Issued ω)) (m : μ) (k : κ) [DecidablePred fun w => covers w k] :
    get (replay apply ws m) k =
      get (replay apply (ws.filter fun w => decide (covers w.op k)) m) k := by
  induction ws generalizing m with
  | nil => rfl
  | cons w ws ih =>
    by_cases hw : covers w.op k
    · rw [List.filter_cons, if_pos (decide_eq_true hw)]
      exact ih (apply w.op m)
    · rw [List.filter_cons, if_neg (by rw [decide_eq_true_iff]; exact hw), ← ih m]
      exact h.replay_congr ws (h.frame w.op m k hw)

end Overwrites

/-! ## The account -/

variable (slot : ω → ι)

/-- `x` may take effect before `y`: it was issued before, or `y` was deferred and is of another
slot. -/
def MayPrecede (x y : Issued ω) : Prop :=
  y.number < x.number → slot y.op ≠ slot x.op ∧ y.prompt = false

/-- The writes issued, those that took effect, in that order, and those that wait. -/
structure Ledger (issued applied waiting : List (Issued ω)) : Prop where
  perm : (applied ++ waiting).Perm issued
  ordered : (applied ++ waiting).Pairwise (MayPrecede slot)
  numbered : issued.Pairwise fun x y => x.number < y.number
  bound : ∀ w ∈ issued, w.number < issued.length

variable {slot} {issued applied waiting : List (Issued ω)}

/-- At first nothing is applied and nothing waits. -/
theorem Ledger.start : Ledger slot ([] : List (Issued ω)) [] [] :=
  ⟨List.Perm.nil, List.Pairwise.nil, List.Pairwise.nil, fun _ hw => nomatch hw⟩

/-- A write is issued. -/
theorem Ledger.issue (h : Ledger slot issued applied waiting) {w : Issued ω}
    (hw : w.number = issued.length) : Ledger slot (issued ++ [w]) applied (waiting ++ [w]) := by
  refine ⟨?_, ?_, ?_, ?_⟩
  · rw [← List.append_assoc]
    exact h.perm.append_right [w]
  · rw [← List.append_assoc]
    apply List.pairwise_append.mpr
    refine ⟨h.ordered, List.pairwise_singleton _ w, ?_⟩
    intro x hx y hy hlt
    have hbound := h.bound x (h.perm.mem_iff.mp hx)
    obtain rfl := List.mem_singleton.mp hy
    omega
  · apply List.pairwise_append.mpr
    refine ⟨h.numbered, List.pairwise_singleton _ w, ?_⟩
    intro x hx y hy
    have hbound := h.bound x hx
    obtain rfl := List.mem_singleton.mp hy
    omega
  · intro x hx
    rw [List.length_append, List.length_singleton]
    rcases List.mem_append.mp hx with hx | hx
    · exact Nat.lt_succ_of_lt (h.bound x hx)
    · obtain rfl := List.mem_singleton.mp hx
      omega

/-- When nothing waits, a place where no deferred write was overtaken holds what the writes leave
there in the order they were issued. -/
theorem Ledger.replay_eq (h : Ledger slot issued applied []) (hover : Overwrites apply get covers)
    {k : κ} (hk : ∀ x ∈ issued, ∀ y ∈ issued, covers x.op k → covers y.op k →
      x.number < y.number → x.prompt = true ∨ slot x.op = slot y.op) (m : μ) :
    get (replay apply applied m) k = get (replay apply issued m) k := by
  classical
  have hperm := h.perm
  have hordered := h.ordered
  rw [List.append_nil] at hperm hordered
  rw [hover.replay_filter applied m k, hover.replay_filter issued m k]
  congr 2
  -- the two filtered lists are sorted by number
  have hdistinct : applied.Pairwise fun x y => x.number ≠ y.number :=
    hperm.symm.pairwise (h.numbered.imp Nat.ne_of_lt) (fun hne => hne.symm)
  have hsorted : (applied.filter fun w => decide (covers w.op k)).Pairwise
      fun x y => x.number < y.number := by
    apply List.Pairwise.imp_of_mem ?_ ((hordered.and hdistinct).filter _)
    intro x y hx hy hxy
    obtain ⟨hx, hcx⟩ := List.mem_filter.mp hx
    obtain ⟨hy, hcy⟩ := List.mem_filter.mp hy
    by_contra hnot
    have hlt : y.number < x.number := by
      have hne := hxy.2
      omega
    obtain ⟨hslot, hprompt⟩ := hxy.1 hlt
    rcases hk y (hperm.mem_iff.mp hy) x (hperm.mem_iff.mp hx) (of_decide_eq_true hcy)
      (of_decide_eq_true hcx) hlt with hyes | hsame
    · rw [hprompt] at hyes
      cases hyes
    · exact hslot hsame
  apply List.Perm.eq_of_pairwise ?_ hsorted (h.numbered.filter _) (hperm.filter _)
  intro x y _ _ hxy hyx
  omega

variable [DecidableEq ι]

/-- The writes of a slot. -/
def ofSlot (slot : ω → ι) (i : ι) (ws : List (Issued ω)) : List (Issued ω) :=
  ws.filter fun w => slot w.op = i

/-- The writes of the other slots. -/
def notOfSlot (slot : ω → ι) (i : ι) (ws : List (Issued ω)) : List (Issued ω) :=
  ws.filter fun w => slot w.op ≠ i

/-- The operations of a slot. -/
theorem mem_ofSlot {i : ι} {ws : List (Issued ω)} {w : Issued ω} :
    w ∈ ofSlot slot i ws ↔ w ∈ ws ∧ slot w.op = i := by
  rw [ofSlot, List.mem_filter, decide_eq_true_iff]

/-- The operations of the other slots. -/
theorem mem_notOfSlot {i : ι} {ws : List (Issued ω)} {w : Issued ω} :
    w ∈ notOfSlot slot i ws ↔ w ∈ ws ∧ slot w.op ≠ i := by
  rw [notOfSlot, List.mem_filter, decide_eq_true_iff]

/-- The operations of a slot, over two parts. -/
theorem ofSlot_append (i : ι) (ws ws' : List (Issued ω)) :
    ofSlot slot i (ws ++ ws') = ofSlot slot i ws ++ ofSlot slot i ws' := List.filter_append ws ws'

/-- Taking one slot out leaves the others. -/
theorem ofSlot_notOfSlot {i j : ι} (hne : j ≠ i) (ws : List (Issued ω)) :
    ofSlot slot j (notOfSlot slot i ws) = ofSlot slot j ws := by
  rw [ofSlot, notOfSlot, List.filter_filter, ofSlot]
  apply List.filter_congr
  intro w _
  by_cases hw : slot w.op = j
  · simp only [hw, hne, decide_true, ne_eq, not_false_eq_true, Bool.and_self]
  · simp only [hw, decide_false, Bool.false_and]

/-- A slot is settled: the writes of it that wait take effect, and overtake the others. -/
theorem Ledger.settle (h : Ledger slot issued applied waiting) (i : ι)
    (hdeferred : ∀ w ∈ waiting, slot w.op = i ∨ w.prompt = false) :
    Ledger slot issued (applied ++ ofSlot slot i waiting) (notOfSlot slot i waiting) := by
  obtain ⟨happlied, hwaiting, hcross⟩ := List.pairwise_append.mp h.ordered
  refine ⟨?_, ?_, h.numbered, h.bound⟩
  · have hsplit : (ofSlot slot i waiting ++ notOfSlot slot i waiting).Perm waiting := by
      have hfilter := List.filter_append_perm (fun w => decide (slot w.op = i)) waiting
      simpa only [ofSlot, notOfSlot, ne_eq, decide_not] using hfilter
    rw [List.append_assoc]
    exact (hsplit.append_left applied).trans h.perm
  · apply List.pairwise_append.mpr
    refine ⟨List.pairwise_append.mpr ⟨happlied, hwaiting.filter _, ?_⟩, hwaiting.filter _, ?_⟩
    · intro x hx y hy
      exact hcross x hx y (mem_ofSlot.mp hy).1
    · intro x hx y hy
      obtain ⟨hmem, hslot⟩ := mem_notOfSlot.mp hy
      rcases List.mem_append.mp hx with hx | hx
      · exact hcross x hx y hmem
      · obtain ⟨_, rfl⟩ := mem_ofSlot.mp hx
        intro _
        exact ⟨hslot, (hdeferred y hmem).resolve_left hslot⟩

/-- A write to a slot that nothing waits for may take effect as it is issued. -/
theorem Ledger.pass (h : Ledger slot issued applied waiting) {w : Issued ω}
    (hw : w.number = issued.length) (hnone : ∀ x ∈ waiting, slot x.op ≠ slot w.op)
    (hdeferred : ∀ x ∈ waiting, x.prompt = false) :
    Ledger slot (issued ++ [w]) (applied ++ [w]) waiting := by
  have hof : ofSlot slot (slot w.op) (waiting ++ [w]) = [w] := by
    have hwait : ofSlot slot (slot w.op) waiting = [] := by
      apply List.filter_eq_nil_iff.mpr
      intro x hx
      rw [decide_eq_true_iff]
      exact hnone x hx
    rw [ofSlot_append, hwait, List.nil_append]
    exact List.filter_cons_of_pos (decide_eq_true rfl)
  have hrest : notOfSlot slot (slot w.op) (waiting ++ [w]) = waiting := by
    have hwait : notOfSlot slot (slot w.op) waiting = waiting := by
      apply List.filter_eq_self.mpr
      intro x hx
      rw [decide_eq_true_iff]
      exact hnone x hx
    have hself : notOfSlot slot (slot w.op) [w] = [] := by
      apply List.filter_eq_nil_iff.mpr
      intro x hx
      obtain rfl := List.mem_singleton.mp hx
      rw [decide_eq_true_iff]
      exact not_not.mpr rfl
    have happend : notOfSlot slot (slot w.op) (waiting ++ [w]) =
        notOfSlot slot (slot w.op) waiting ++ notOfSlot slot (slot w.op) [w] :=
      List.filter_append waiting [w]
    rw [happend, hwait, hself, List.append_nil]
  have hsettled := (h.issue hw).settle (slot w.op) (fun x hx => by
    rcases List.mem_append.mp hx with hx | hx
    · exact .inr (hdeferred x hx)
    · obtain rfl := List.mem_singleton.mp hx
      exact .inl rfl)
  rw [hof, hrest] at hsettled
  exact hsettled

end OipComms.Deferral
