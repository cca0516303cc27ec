import Mathlib.Data.Set.Insert
import OipComms.Lib.Hull
import OipComms.Lib.Run
import OipComms.S7.Handles

/-!
# What a memory block covers

A block should be the hull of the ranges of all tags ever accepted into it, since a tag is read out
of the block's image and out of nothing else. `s7_register_tag` lowers `Start` without adding to
`Quantity` what `Start` lost, so a block that grows at its low end also loses as much at its high
end, unless the tag that lowered it reaches that end.

`Reaches` is the exact condition on a registration; `covered_iff_reaches` says so for every history
of registrations and removals.
-/

namespace OipComms.S7

open Run

universe u

variable {σ : Type u}

/-- The calls of a history on one connection. -/
inductive RegCall
  | register (tagName : CStr)
  | unregister (identifier : Int)

/-- A connection, the class-wide tag counter, and every tag it ever accepted, by area. -/
structure Registrations (σ : Type u) where
  plc : S7Plc σ
  counter : Nat
  accepted : Area → List S7Tag := fun _ => []

/-- The tag a call adds, with its area, when it adds one. -/
def acceptedTag (counter : Nat) (tagName : CStr) : Option (Area × S7Tag) :=
  match decodeTag counter tagName with
  | .ok tag => if tag.inRange then tag.mem.map fun area => (area, tag) else none
  | .error _ => none

def Registrations.step (g : Registrations σ) : RegCall → Registrations σ
  | .register tagName =>
    { plc := (g.plc.s7RegisterTag g.counter tagName).2
      counter := nextTagId g.counter
      accepted := match acceptedTag g.counter tagName with
        | some (area, tag) => fun b => if b = area then tag :: g.accepted b else g.accepted b
        | none => g.accepted }
  | .unregister identifier => { g with plc := g.plc.s7UnregisterTag identifier }

/-- The bytes a tag addresses, in exact arithmetic. -/
def S7Tag.range (tag : S7Tag) : Int × Int := (tag.idx, tag.idx + tag.byteQty)

/-- The ranges of the tags ever accepted into a block. -/
def Registrations.ranges (g : Registrations σ) (area : Area) : Set (Int × Int) :=
  {r | ∃ tag ∈ g.accepted area, tag.range = r}

/-- Each block that ever accepted a tag is the hull of what it accepted, and every registered tag's
bytes lie in its block. -/
def Registrations.Covered (g : Registrations σ) : Prop :=
  (∀ area, g.accepted area ≠ [] →
    Hull (g.ranges area) (g.plc.block area).start
      ((g.plc.block area).start + (g.plc.block area).quantity)) ∧
  ∀ tag ∈ g.plc.tags, ∀ area, tag.mem = some area →
    (g.plc.block area).start ≤ tag.idx ∧
      tag.idx + tag.byteQty ≤ (g.plc.block area).start + (g.plc.block area).quantity

/-- A tag that may be added to a block: no `int` sum overflows, and a tag that lowers the start of
a block in use reaches its end. -/
def S7MemoryBlock.Reached (mem : S7MemoryBlock) (tag : S7Tag) : Prop :=
  tag.idx + tag.byteQty ≤ 65536 ∧ tag.idx + tag.byteQty - mem.start < 2147483648 ∧
  (mem.quantity = 0 ∨ mem.start ≤ tag.idx ∨ mem.start + mem.quantity ≤ tag.idx + tag.byteQty)

/-- The condition on one call. -/
def Registrations.Reaches (g : Registrations σ) : RegCall → Prop
  | .register tagName => ∀ p ∈ acceptedTag g.counter tagName, (g.plc.block p.1).Reached p.2
  | .unregister _ => True

instance (mem : S7MemoryBlock) (tag : S7Tag) : Decidable (mem.Reached tag) :=
  inferInstanceAs (Decidable (_ ∧ _ ∧ _))

instance (g : Registrations σ) : (c : RegCall) → Decidable (g.Reaches c)
  | .register tagName =>
    inferInstanceAs (Decidable (∀ p ∈ acceptedTag g.counter tagName, (g.plc.block p.1).Reached p.2))
  | .unregister _ => .isTrue trivial

/-- A connection nothing was ever registered on. -/
def Registrations.start (net : Net σ) (idCounter counter : Nat) (host : CStr) : Registrations σ :=
  { plc := S7Plc.new net idCounter host, counter := counter }

/-! ## One block, one tag -/

/-- What holds of a block in use: `int` fields, a positive size, and an end the check allows. -/
structure S7MemoryBlock.Used (mem : S7MemoryBlock) : Prop where
  start_ge : -2147483648 ≤ mem.start
  start_lt : mem.start < 65536
  quantity_pos : 0 < mem.quantity
  quantity_lt : mem.quantity < 2147483648
  end_le : mem.start + mem.quantity ≤ 65536

/-- A tag as `s7_register_tag` accepts it. -/
structure S7Tag.Accepted (tag : S7Tag) : Prop where
  idx_ge : -2147483648 ≤ tag.idx
  idx_le : tag.idx ≤ 2147483647
  byteQty_pos : 0 < tag.byteQty
  byteQty_le : tag.byteQty ≤ 8
  endIdx_le : tag.endIdx ≤ 65536

/-- The accepted end is exact, or the sum overflowed and the end is far below every block. -/
theorem S7Tag.Accepted.endIdx_cases {tag : S7Tag} (h : tag.Accepted) :
    (tag.endIdx = tag.idx + tag.byteQty ∧ tag.idx + tag.byteQty ≤ 65536) ∨
    (tag.endIdx = tag.idx + tag.byteQty - 4294967296 ∧ 2147483640 ≤ tag.idx ∧
      2147483648 ≤ tag.idx + tag.byteQty) := by
  obtain ⟨h1, h2, h3, h4, h5⟩ := h
  simp only [S7Tag.endIdx, int32] at *
  omega

/-- A tag below the block lowers its start, and the quantity stays unless the tag ends behind it. -/
theorem extend_of_low {mem : S7MemoryBlock} {tag : S7Tag} (hlow : tag.idx < mem.start) :
    (mem.extend tag).start = tag.idx ∧ (mem.extend tag).quantity =
      if int32 (tag.idx + mem.quantity) < tag.endIdx then int32 (tag.endIdx - tag.idx)
      else mem.quantity := by
  unfold S7MemoryBlock.extend
  simp only [hlow, if_true]
  by_cases hgrow : int32 (tag.idx + mem.quantity) < tag.endIdx
  · simp only [hgrow, if_true, and_self]
  · simp only [hgrow, if_false, and_self]

/-- A tag not below the block leaves its start. -/
theorem extend_of_high {mem : S7MemoryBlock} {tag : S7Tag} (hhigh : ¬ tag.idx < mem.start) :
    (mem.extend tag).start = mem.start ∧ (mem.extend tag).quantity =
      if int32 (mem.start + mem.quantity) < tag.endIdx then int32 (tag.endIdx - mem.start)
      else mem.quantity := by
  unfold S7MemoryBlock.extend
  simp only [hhigh, if_false]
  by_cases hgrow : int32 (mem.start + mem.quantity) < tag.endIdx
  · simp only [hgrow, if_true, and_self]
  · simp only [hgrow, if_false, and_self]

/-- The start is the lower of the two. -/
theorem extend_start (mem : S7MemoryBlock) (tag : S7Tag) :
    (mem.extend tag).start = min tag.idx mem.start := by
  by_cases hlow : tag.idx < mem.start
  · rw [(extend_of_low hlow).1, min_eq_left (Int.le_of_lt hlow)]
  · rw [(extend_of_high hlow).1, min_eq_right (Int.not_lt.mp hlow)]

/-- On a block in use, the updates compute the end of the hull exactly for a tag that reaches. -/
theorem extend_end_iff {mem : S7MemoryBlock} {tag : S7Tag} (hmem : mem.Used) (htag : tag.Accepted) :
    (mem.extend tag).start + (mem.extend tag).quantity =
        max (tag.idx + tag.byteQty) (mem.start + mem.quantity) ↔ mem.Reached tag := by
  obtain ⟨h1, h2, h3, h4, h5⟩ := hmem
  have hend := htag.endIdx_cases
  obtain ⟨t1, t2, t3, t4, -⟩ := htag
  unfold S7MemoryBlock.Reached
  by_cases hlow : tag.idx < mem.start
  · obtain ⟨hstart, hquantity⟩ := extend_of_low hlow
    rw [hstart, hquantity, int32_eq_self (by omega) (by omega)]
    by_cases hgrow : tag.idx + mem.quantity < tag.endIdx
    · rw [if_pos hgrow, int32_eq_self (by omega) (by omega)]
      omega
    · rw [if_neg hgrow]
      omega
  · obtain ⟨hstart, hquantity⟩ := extend_of_high hlow
    rw [hstart, hquantity, int32_eq_self (by omega) (by omega)]
    by_cases hgrow : mem.start + mem.quantity < tag.endIdx
    · rw [if_pos hgrow]
      unfold int32
      omega
    · rw [if_neg hgrow]
      omega

/-- The first tag of a block sets it to its own range, unless an overflow passed the check. -/
theorem extend_first_iff {mem : S7MemoryBlock} {tag : S7Tag} (hstart : mem.start = 65536)
    (hquantity : mem.quantity = 0) (htag : tag.Accepted) :
    ((mem.extend tag).start = tag.idx ∧
      (mem.extend tag).start + (mem.extend tag).quantity = tag.idx + tag.byteQty) ↔
    mem.Reached tag := by
  have hend := htag.endIdx_cases
  obtain ⟨t1, t2, t3, t4, -⟩ := htag
  unfold S7MemoryBlock.Reached
  by_cases hlow : tag.idx < mem.start
  · obtain ⟨hs, hq⟩ := extend_of_low hlow
    rw [hs, hq, hquantity, Int.add_zero, int32_eq_self (by omega) (by omega), if_pos (by omega),
      int32_eq_self (by omega) (by omega)]
    omega
  · obtain ⟨hs, hq⟩ := extend_of_high hlow
    rw [hs, hq, hquantity, hstart]
    omega

/-- A reaching tag leaves the block in use, within the checked bounds. -/
theorem extend_used {mem : S7MemoryBlock} {tag : S7Tag} (htag : tag.Accepted)
    (hmem : mem.Used ∨ mem.start = 65536 ∧ mem.quantity = 0) (hreach : mem.Reached tag) :
    (mem.extend tag).Used := by
  have hstart := extend_start mem tag
  obtain ⟨r1, r2, r3⟩ := id hreach
  rcases hmem with hmem | ⟨h1, h2⟩
  · have hend := (extend_end_iff hmem htag).mpr hreach
    obtain ⟨h1, h2, h3, h4, h5⟩ := hmem
    obtain ⟨t1, t2, t3, t4, -⟩ := htag
    constructor <;> omega
  · have hend := (extend_first_iff h1 h2 htag).mpr hreach
    obtain ⟨t1, t2, t3, t4, -⟩ := htag
    constructor <;> omega

/-! ## One call -/

/-- A tag that is accepted lies in the area of its name. -/
theorem acceptedTag_accepted {counter : Nat} {tagName : CStr} {area : Area} {tag : S7Tag}
    (h : acceptedTag counter tagName = some (area, tag)) : tag.Accepted ∧ tag.mem = some area := by
  unfold acceptedTag at h
  cases hdecode : decodeTag counter tagName with
  | error e => rw [hdecode] at h; cases h
  | ok t =>
    rw [hdecode] at h
    simp only at h
    by_cases hrange : t.inRange = true
    · rw [if_pos hrange] at h
      obtain ⟨b, hmem, heq⟩ := Option.map_eq_some_iff.mp h
      obtain ⟨rfl, rfl⟩ := Prod.mk.inj heq
      obtain ⟨_, _, _, ⟨hlo, hhi⟩, hwidth⟩ := decodeTag_decoded hdecode
      have hend : t.endIdx ≤ 65536 := by simpa [S7Tag.inRange] using hrange
      have hqty := hwidth (by rw [hmem]; exact Option.some_ne_none b)
      exact ⟨⟨hlo, hhi, by omega, by omega, hend⟩, hmem⟩
    · rw [if_neg hrange] at h
      cases h

/-- A registration either changes no block and no tag list, or adds the tag it accepts. -/
theorem s7RegisterTag_accepted (plc : S7Plc σ) (counter : Nat) (tagName : CStr) :
    (acceptedTag counter tagName = none ∧ (plc.s7RegisterTag counter tagName).2 = plc) ∨
    ∃ area tag, acceptedTag counter tagName = some (area, tag) ∧
      (plc.s7RegisterTag counter tagName).2 = plc.addTag area tag := by
  unfold acceptedTag S7Plc.s7RegisterTag
  cases decodeTag counter tagName with
  | error e => exact .inl ⟨rfl, rfl⟩
  | ok tag =>
    cases hmem : tag.mem with
    | none =>
      left
      simp only [hmem, Option.map_none, ite_self, and_self]
    | some area =>
      by_cases hrange : tag.inRange = true
      · right
        refine ⟨area, tag, ?_, ?_⟩
        · simp only [hrange, if_true, hmem, Option.map_some]
        · simp only [hrange, hmem, Bool.not_true, Bool.false_eq_true, if_false]
      · left
        rw [Bool.not_eq_true] at hrange
        simp only [hrange, hmem, Bool.false_eq_true, if_false, Bool.not_false, if_true, and_self]

/-- What every call keeps, reaching or not. -/
structure Registrations.Base (g : Registrations σ) : Prop where
  accepted : ∀ area, ∀ tag ∈ g.accepted area, tag.Accepted
  registered : ∀ tag ∈ g.plc.tags, ∀ area, tag.mem = some area → tag ∈ g.accepted area
  fresh : ∀ area, g.accepted area = [] →
    (g.plc.block area).start = 65536 ∧ (g.plc.block area).quantity = 0

/-- A block that accepted a tag is in use and is the hull of what it accepted. -/
def Registrations.Hulled (g : Registrations σ) : Prop :=
  ∀ area, g.accepted area ≠ [] → (g.plc.block area).Used ∧
    Hull (g.ranges area) (g.plc.block area).start
      ((g.plc.block area).start + (g.plc.block area).quantity)

/-- A block that is the hull of its tags covers them. -/
theorem Registrations.Hulled.covered {g : Registrations σ} (hB : g.Base) (hJ : g.Hulled) :
    g.Covered := by
  refine ⟨fun area hne => (hJ area hne).2, fun tag htag area hmem => ?_⟩
  have hacc := hB.registered tag htag area hmem
  exact (hJ area (List.ne_nil_of_mem hacc)).2.contains ⟨tag, hacc, rfl⟩

/-- The connection after an accepted registration. -/
theorem step_register {g : Registrations σ} {tagName : CStr} {area : Area} {tag : S7Tag}
    (hacc : acceptedTag g.counter tagName = some (area, tag)) :
    g.step (.register tagName) =
      { plc := g.plc.addTag area tag, counter := nextTagId g.counter,
        accepted := fun b => if b = area then tag :: g.accepted b else g.accepted b } := by
  rcases s7RegisterTag_accepted g.plc g.counter tagName with ⟨hnone, _⟩ | ⟨a, t, hsome, hplc⟩
  · rw [hnone] at hacc
    cases hacc
  · rw [hsome] at hacc
    obtain ⟨rfl, rfl⟩ := Prod.mk.inj (Option.some.inj hacc)
    simp only [Registrations.step, hsome, hplc]

/-- A name that is refused only takes a number. -/
theorem step_refused {g : Registrations σ} {tagName : CStr}
    (hacc : acceptedTag g.counter tagName = none) :
    g.step (.register tagName) = { g with counter := nextTagId g.counter } := by
  rcases s7RegisterTag_accepted g.plc g.counter tagName with ⟨hnone, hplc⟩ | ⟨a, t, hsome, _⟩
  · simp only [Registrations.step, hnone, hplc]
  · rw [hsome] at hacc
    cases hacc

/-- A tag extends the block of its own area. -/
@[simp] theorem S7Plc.addTag_block (plc : S7Plc σ) (area b : Area) (tag : S7Tag) :
    (plc.addTag area tag).block b =
      if b = area then (plc.block area).extend tag else plc.block b :=
  plc.block_setBlock area b _

/-- Every call keeps what is said of the blocks. -/
theorem Registrations.Base.step {g : Registrations σ} (hB : g.Base) (c : RegCall) :
    (g.step c).Base := by
  cases c with
  | unregister identifier =>
    refine ⟨hB.accepted, fun tag htag => ?_, fun area hnil => ?_⟩
    · exact hB.registered tag (List.mem_of_mem_eraseP htag)
    · exact hB.fresh area hnil
  | register tagName =>
    cases hacc : acceptedTag g.counter tagName with
    | none =>
      rw [step_refused hacc]
      exact ⟨hB.accepted, hB.registered, hB.fresh⟩
    | some p =>
      obtain ⟨area, tag⟩ := p
      obtain ⟨haccepted, hmem⟩ := acceptedTag_accepted hacc
      rw [step_register hacc]
      refine ⟨fun b t ht => ?_, fun t ht b hb => ?_, fun b hnil => ?_⟩
      · by_cases hb : b = area
        · simp only [hb, if_true] at ht
          rcases List.mem_cons.mp ht with rfl | ht
          · exact haccepted
          · exact hB.accepted area t ht
        · simp only [hb, if_false] at ht
          exact hB.accepted b t ht
      · rw [S7Plc.addTag_tags] at ht
        rcases List.mem_append.mp ht with ht | ht
        · have hold := hB.registered t ht b hb
          by_cases hba : b = area
          · simp only [hba, if_true]
            exact List.mem_cons_of_mem _ (hba ▸ hold)
          · simp only [hba, if_false]
            exact hold
        · obtain rfl := List.mem_singleton.mp ht
          rw [hmem] at hb
          simp only [Option.some.inj hb, if_true, List.mem_cons_self]
      · by_cases hba : b = area
        · simp only [hba, if_true] at hnil
          cases hnil
        · simp only [hba, if_false] at hnil
          simp only [S7Plc.addTag_block, hba, if_false]
          exact hB.fresh b hnil

/-- The ranges of the tags with one more. -/
theorem ranges_cons {g : Registrations σ} {area : Area} {tag : S7Tag} {tags : List S7Tag}
    (h : g.accepted area = tag :: tags) :
    g.ranges area = insert tag.range {r | ∃ t ∈ tags, t.range = r} := by
  ext r
  simp only [Registrations.ranges, h, List.mem_cons, Set.mem_ofPred_eq, Set.mem_insert_iff,
    or_and_right, exists_or, exists_eq_left, @eq_comm _ r]

/-- The block an accepted tag goes to is the hull afterwards exactly when the tag reaches. -/
theorem hull_extend_iff {g : Registrations σ} (hB : g.Base) (hJ : g.Hulled) {area : Area}
    {tag : S7Tag} (htag : tag.Accepted) :
    Hull (insert tag.range (g.ranges area)) ((g.plc.block area).extend tag).start
      (((g.plc.block area).extend tag).start + ((g.plc.block area).extend tag).quantity) ↔
    (g.plc.block area).Reached tag := by
  by_cases hnil : g.accepted area = []
  · obtain ⟨hstart, hquantity⟩ := hB.fresh area hnil
    have hempty : insert tag.range (g.ranges area) = {tag.range} := by
      simp only [Registrations.ranges, hnil, List.not_mem_nil, false_and, exists_false,
        Set.ofPred_false, insert_empty_eq]
    rw [hempty, S7Tag.range, hull_singleton_iff]
    exact extend_first_iff hstart hquantity htag
  · obtain ⟨hused, hhull⟩ := hJ area hnil
    rw [S7Tag.range, hhull.insert_iff, ← extend_end_iff hused htag]
    exact and_iff_right (extend_start _ tag)

/-- A registration that reaches as far as the block keeps it a hull. -/
theorem Registrations.Hulled.step {g : Registrations σ} (hB : g.Base) (hJ : g.Hulled) {c : RegCall}
    (hC : g.Reaches c) : (g.step c).Hulled := by
  cases c with
  | unregister identifier => exact hJ
  | register tagName =>
    cases hacc : acceptedTag g.counter tagName with
    | none =>
      rw [step_refused hacc]
      exact hJ
    | some p =>
      obtain ⟨area, tag⟩ := p
      have hreach := hC (area, tag) hacc
      have htag := (acceptedTag_accepted hacc).1
      rw [step_register hacc]
      intro b hne
      by_cases hba : b = area
      · subst hba
        rw [ranges_cons (by simp only [if_true]; rfl)]
        simp only [S7Plc.addTag_block, if_true]
        refine ⟨extend_used htag ?_ hreach, (hull_extend_iff hB hJ htag).mpr hreach⟩
        by_cases hnil : g.accepted b = []
        · exact .inr (hB.fresh b hnil)
        · exact .inl (hJ b hnil).1
      · simp only [hba, if_false] at hne
        simp only [S7Plc.addTag_block, hba, if_false, Registrations.ranges]
        exact hJ b hne

/-- A registration that does not leaves the tags uncovered. -/
theorem Registrations.not_covered {g : Registrations σ} (hB : g.Base) (hJ : g.Hulled) {c : RegCall}
    (hC : ¬ g.Reaches c) : ¬ (g.step c).Covered := by
  cases c with
  | unregister identifier => exact absurd trivial hC
  | register tagName =>
    simp only [Registrations.Reaches, not_forall] at hC
    obtain ⟨⟨area, tag⟩, hacc, hno⟩ := hC
    have htag := (acceptedTag_accepted hacc).1
    rintro ⟨hhull, _⟩
    have h := hhull area
    rw [step_register hacc] at h
    rw [ranges_cons (by simp only [if_true]; rfl)] at h
    simp only [S7Plc.addTag_block, if_true] at h
    exact hno ((hull_extend_iff hB hJ htag).mp (h (List.cons_ne_nil _ _)))

/-- An area without tags has no ranges. -/
theorem accepted_nil_iff (g : Registrations σ) (area : Area) :
    g.accepted area = [] ↔ g.ranges area = ∅ := by
  rw [Set.eq_empty_iff_forall_notMem, List.eq_nil_iff_forall_not_mem]
  constructor
  · rintro h r ⟨tag, htag, -⟩
    exact h tag htag
  · intro h tag htag
    exact h tag.range ⟨tag, htag, rfl⟩

/-! ## Every history -/

/-- The blocks of a new connection are empty. -/
theorem Registrations.base_start (net : Net σ) (idCounter counter : Nat) (host : CStr) :
    (Registrations.start net idCounter counter host).Base :=
  ⟨fun _ _ h => (List.not_mem_nil h).elim, fun _ h => (List.not_mem_nil h).elim,
    fun area _ => by cases area <;> exact ⟨rfl, rfl⟩⟩

/-- The empty blocks are the hulls of no tags. -/
theorem Registrations.hulled_start (net : Net σ) (idCounter counter : Nat) (host : CStr) :
    (Registrations.start net idCounter counter host).Hulled :=
  fun _ hne => absurd rfl hne

/-- The range a tag name stands for does not depend on the identifier its tag is given. -/
theorem acceptedTag_range (counter : Nat) (tagName : CStr) :
    (acceptedTag counter tagName).map (fun p => (p.1, p.2.range)) =
      (acceptedTag 0 tagName).map fun p => (p.1, p.2.range) := by
  unfold acceptedTag
  rw [decodeTag_identifier counter tagName]
  cases decodeTag 0 tagName with
  | error e => rfl
  | ok tag =>
    simp only [Except.map, S7Tag.withId_inRange, S7Tag.withId_mem]
    by_cases hrange : tag.inRange = true
    · simp only [hrange, if_true, Option.map_map]
      rfl
    · simp only [hrange, Bool.false_eq_true, if_false]

/-- What the blocks accepted is told by the names registered, in any order. -/
theorem mem_ranges_run {g : Registrations σ} (ops : List RegCall) (area : Area) (r : Int × Int) :
    r ∈ (run Registrations.step g ops).ranges area ↔
      r ∈ g.ranges area ∨ ∃ tagName, .register tagName ∈ ops ∧
        (acceptedTag 0 tagName).map (fun p => (p.1, p.2.range)) = some (area, r) := by
  induction ops generalizing g with
  | nil => simp only [run_nil, List.not_mem_nil, false_and, exists_false, or_false]
  | cons c ops ih =>
    rw [run_cons, ih]
    cases c with
    | unregister identifier =>
      simp only [List.mem_cons, reduceCtorEq, false_or]
      exact Iff.rfl
    | register name =>
      have hone : r ∈ (g.step (.register name)).ranges area ↔ r ∈ g.ranges area ∨
          (acceptedTag 0 name).map (fun p => (p.1, p.2.range)) = some (area, r) := by
        rw [← acceptedTag_range g.counter]
        cases hacc : acceptedTag g.counter name with
        | none =>
          rw [step_refused hacc]
          simp only [Option.map_none, reduceCtorEq, or_false]
          exact Iff.rfl
        | some p =>
          obtain ⟨b, tag⟩ := p
          rw [step_register hacc]
          simp only [Registrations.ranges, Set.mem_ofPred_eq, Option.map_some, Option.some.injEq,
            Prod.mk.injEq]
          by_cases hba : area = b
          · simp only [hba, if_true, List.exists_mem_cons_iff, true_and, or_comm]
          · simp only [hba, if_false, Ne.symm hba, false_and, or_false]
      rw [hone, or_assoc]
      simp only [List.mem_cons, RegCall.register.injEq, or_and_right, exists_or, exists_eq_left]

/-- A history keeps every block the hull of what it accepted, and every registered tag inside its
block, exactly when each registration that lowers the start of a block in use reaches its end; and
two such histories over the same names end with the same blocks. -/
theorem covered_iff_reaches (net : Net σ) (idCounter counter : Nat) (host : CStr)
    (ops : List RegCall) :
    (Along Registrations.step Registrations.Covered
        (Registrations.start net idCounter counter host) ops ↔
      Meets Registrations.step Registrations.Reaches
        (Registrations.start net idCounter counter host) ops) ∧
    ∀ ops', (∀ tagName, .register tagName ∈ ops' ↔ .register tagName ∈ ops) →
      Meets Registrations.step Registrations.Reaches
        (Registrations.start net idCounter counter host) ops →
      Meets Registrations.step Registrations.Reaches
        (Registrations.start net idCounter counter host) ops' →
      ∀ area,
        let mem := (run Registrations.step
          (Registrations.start net idCounter counter host) ops).plc.block area
        let mem' := (run Registrations.step
          (Registrations.start net idCounter counter host) ops').plc.block area
        mem'.start = mem.start ∧ mem'.quantity = mem.quantity := by
  set g := Registrations.start net idCounter counter host with hg
  have hbase : g.Base := Registrations.base_start net idCounter counter host
  have hiff : ∀ calls, Along Registrations.step Registrations.Covered g calls ↔
      Meets Registrations.step Registrations.Reaches g calls := by
    intro calls
    refine along_iff_meets Registrations.step (B := Registrations.Base)
      (J := Registrations.Hulled) (D := fun _ _ => True) (fun g c hB _ => hB.step c)
      (fun g c hB hJ _ hC => hJ.step hB hC) (fun g hB hJ => hJ.covered hB)
      (fun g c hB hJ _ hC => g.not_covered hB hJ hC) hbase
      (Registrations.hulled_start net idCounter counter host) ?_
    exact (meets_iff_split _ _ g calls).mpr fun _ _ _ _ => trivial
  refine ⟨hiff ops, fun ops' hnames hmeets hmeets' area => ?_⟩
  have hsame : (run Registrations.step g ops').ranges area =
      (run Registrations.step g ops).ranges area := by
    ext r
    simp only [mem_ranges_run, hnames]
  have hlast := run_of_invariant Registrations.step (fun g c hB => hB.step c) hbase ops
  have hlast' := run_of_invariant Registrations.step (fun g c hB => hB.step c) hbase ops'
  have hnil : (run Registrations.step g ops').accepted area = [] ↔
      (run Registrations.step g ops).accepted area = [] := by
    rw [accepted_nil_iff, accepted_nil_iff, hsame]
  by_cases hempty : (run Registrations.step g ops).accepted area = []
  · obtain ⟨h1, h2⟩ := hlast.fresh area hempty
    obtain ⟨h3, h4⟩ := hlast'.fresh area (hnil.mpr hempty)
    exact ⟨h3.trans h1.symm, h4.trans h2.symm⟩
  · have hhull := ((hiff ops).mpr hmeets).last.1 area hempty
    have hhull' := ((hiff ops').mpr hmeets').last.1 area (fun h => hempty (hnil.mp h))
    rw [hsame] at hhull'
    obtain ⟨hstart, hend⟩ := hhull'.unique hhull
    exact ⟨hstart, by omega⟩

/-- `MB5` after `MB10` shrinks the block to one byte, and `MB10` falls out of it. -/
theorem mb10_mb5_not_covered :
    ¬ Along Registrations.step Registrations.Covered (Registrations.start deadNet 0 0 ['P'])
      [.register ['M', 'B', '1', '0'], .register ['M', 'B', '5']] := by
  intro h
  obtain ⟨_, hin⟩ := h.last
  have htag : (⟨0, 10, -1, 1, some .M, 0, false⟩ : S7Tag) ∈
      (run Registrations.step (Registrations.start deadNet 0 0 ['P'])
        [.register ['M', 'B', '1', '0'], .register ['M', 'B', '5']]).plc.tags := by
    clear hin
    decide
  exact absurd (hin _ htag .M rfl).2 (by decide)

/-- `MB5` before `MB10` keeps both, and so does the same with a name taken back and repeated. -/
theorem mb5_mb10_covered :
    ∀ area,
      let mem := (run Registrations.step (Registrations.start deadNet 0 0 ['P'])
        [.register ['M', 'B', '5'], .register ['M', 'B', '1', '0']]).plc.block area
      let mem' := (run Registrations.step (Registrations.start deadNet 0 0 ['P'])
        [.register ['M', 'B', '5'], .register ['M', 'B', '1', '0'], .unregister 16777217,
          .register ['M', 'B', '1', '0']]).plc.block area
      mem'.start = mem.start ∧ mem'.quantity = mem.quantity := by
  refine (covered_iff_reaches deadNet 0 0 ['P'] _).2 _ (fun tagName => ?_) ?_ ?_
  · simp only [List.mem_cons, RegCall.register.injEq, List.not_mem_nil, or_false, reduceCtorEq,
      false_or, or_self]
  · decide
  · decide

end OipComms.S7
