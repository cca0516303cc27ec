import Mathlib.Logic.Function.Basic
import OipComms.Comms.Callers

/-!
# What the registry holds

A roll of the registrations is kept beside a run, and the registry held against it. The two agree
for as long as every write that is handed over finds its group, and its tag where the protocol looks
it up: `process_write` looks both up with `operator[]`, and by then the group may have been cleared,
cleaned up or registered anew. `process_work` looks for the group before it polls one.
-/

namespace OipComms.Comms

open Run

universe u

variable {V : Type u}

/-- The groups in the order of their first registration since the last clear, and of each the tags
that were registered since the group was last registered, cleaned up or cleared. -/
structure Roll where
  order : List CStr := []
  stored : CStr → List CStr := fun _ => []

/-- What a call adds to the roll. -/
def Roll.call (r : Roll) (s : State V) : Call V → Roll
  | .registerTagGroup name _ _ =>
    if name = [] then r
    else
      { order := if name ∈ r.order then r.order else r.order ++ [name]
        stored := Function.update r.stored name [] }
  | .registerTag name tagName ty =>
    if (s.registerTag name tagName ty).1 then
      { r with stored := Function.update r.stored name (tagName :: r.stored name) }
    else r
  | .clearTagGroups => if s.simRunning then r else {}
  | .setEnableComms _ | .setSimRunning _ | .process _ | .write _ => r

/-- What a step adds to the roll. The work thread cleans up all groups. -/
def Roll.note (m : Shared V) (l : Turn V) (r : Roll) : Roll :=
  match l with
  | .call c => r.call m.comms c
  | .push _ => r
  | .work _ _ =>
    match m.work with
    | .cleanup _ => { r with stored := fun _ => [] }
    | .pop | .flush _ _ | .handing _ _ _ | .process _ | .push _ => r

/-- The machine with the roll of its registrations. -/
abbrev Rolled (V : Type u) := Shared V × Roll

def Rolled.step : Rolled V → Turn V → Rolled V := watch Shared.step Roll.note

/-- The start of every run. -/
def Rolled.init : Rolled V := ({}, {})

/-- The registry holds exactly what was registered. -/
structure Exact (x : Rolled V) : Prop where
  keys : ∀ name, x.1.comms.tagGroupExists name = true ↔ name ∈ x.1.comms.tagGroupOrder
  nodup : x.1.comms.tagGroupOrder.Nodup
  order : x.1.comms.tagGroupOrder = x.2.order
  tags : ∀ name g, x.1.comms.tagGroups[name]? = some g →
    ∀ tagName, g.has tagName = true ↔ tagName ∈ x.2.stored name

/-- If the step hands over a write, its group is there, and its tag where it is looked up. -/
def Shared.WriteFinds (m : Shared V) : Turn V → Prop
  | .call _ | .push _ => True
  | .work handed _ =>
    match m.work with
    | .handing _ _ w =>
      m.comms.tagGroups[w.tagGroupName]?.any
        (fun g => !g.looksUp handed || g.has w.tagName) = true
    | .pop | .flush _ _ | .cleanup _ | .process _ | .push _ => True

/-! ## The roll of a map -/

/-- The groups are those of the roll, and each has the tags the roll has for it. -/
structure Listed (groups : Groups) (r : Roll) : Prop where
  keys : ∀ name, name ∈ groups ↔ name ∈ r.order
  nodup : r.order.Nodup
  tags : ∀ name g, groups[name]? = some g → ∀ tagName, g.has tagName = true ↔ tagName ∈ r.stored name

/-- The registry is exact if the order and the groups are those of the roll. -/
theorem exact_iff {x : Rolled V} :
    Exact x ↔ x.1.comms.tagGroupOrder = x.2.order ∧ Listed x.1.comms.tagGroups x.2 := by
  constructor
  · rintro ⟨hkeys, hnodup, horder, htags⟩
    refine ⟨horder, ⟨fun name => ?_, horder ▸ hnodup, htags⟩⟩
    rw [← horder, ← hkeys name]
    exact Std.ExtTreeMap.mem_iff_contains
  · rintro ⟨horder, hkeys, hnodup, htags⟩
    refine ⟨fun name => ?_, horder ▸ hnodup, horder, htags⟩
    rw [horder, ← hkeys name]
    exact Std.ExtTreeMap.mem_iff_contains.symm

theorem listed_empty : Listed ∅ {} := by
  refine ⟨fun name => ?_, List.nodup_nil, fun name g hg => ?_⟩
  · exact iff_of_false Std.ExtTreeMap.not_mem_empty List.not_mem_nil
  · rw [Std.ExtTreeMap.getElem?_empty] at hg
    cases hg

/-- Every group is changed. -/
theorem Listed.map {groups : Groups} {r : Roll} (h : Listed groups r)
    (f : CStr → TagGroup → TagGroup) (stored : CStr → List CStr)
    (hf : ∀ name g, groups[name]? = some g → ∀ tagName,
      (f name g).has tagName = true ↔ tagName ∈ stored name) :
    Listed (groups.map f) { r with stored := stored } := by
  refine ⟨fun name => ?_, h.nodup, fun name g hg => ?_⟩
  · rw [Std.ExtTreeMap.mem_map]
    exact h.keys name
  · rw [Std.ExtTreeMap.getElem?_map] at hg
    obtain ⟨g', hg', rfl⟩ := Option.map_eq_some_iff.mp hg
    exact hf name g' hg'

/-- A group is put in the place of its name, which is the last of the roll if it was not there. -/
theorem Listed.insert {groups : Groups} {r : Roll} (h : Listed groups r) (name : CStr)
    (g : TagGroup) (tags : List CStr) (hg : ∀ tagName, g.has tagName = true ↔ tagName ∈ tags) :
    Listed (groups.insert name g)
      { order := if name ∈ r.order then r.order else r.order ++ [name]
        stored := Function.update r.stored name tags } := by
  constructor
  · intro other
    rw [Std.ExtTreeMap.mem_insert, Std.compare_eq_iff_eq, h.keys]
    split
    · rename_i hmem
      refine ⟨fun hor => hor.elim (fun heq => heq ▸ hmem) id, .inr⟩
    · rw [List.mem_append, List.mem_singleton, or_comm, eq_comm]
  · show (if name ∈ r.order then r.order else r.order ++ [name]).Nodup
    split
    · exact h.nodup
    · rename_i hmem
      refine List.nodup_append.mpr ⟨h.nodup, List.nodup_cons.mpr ⟨List.not_mem_nil, List.nodup_nil⟩, ?_⟩
      intro a ha b hb hab
      rw [hab, List.mem_singleton.mp hb] at ha
      exact hmem ha
  · intro other g' hg'
    rw [Std.ExtTreeMap.getElem?_insert] at hg'
    by_cases heq : name = other
    · subst heq
      rw [if_pos Std.ReflCmp.compare_self] at hg'
      obtain rfl := Option.some.inj hg'
      simp only [Function.update_self]
      exact hg
    · rw [if_neg (fun hcmp => heq (Std.LawfulEqCmp.eq_of_compare hcmp))] at hg'
      simp only [Function.update_of_ne (Ne.symm heq)]
      exact h.tags other g' hg'

/-- A group that is there is changed. -/
theorem Listed.replace {groups : Groups} {r : Roll} (h : Listed groups r) {name : CStr}
    {g : TagGroup} (hg : groups[name]? = some g) (g' : TagGroup) (tags : List CStr)
    (hg' : ∀ tagName, g'.has tagName = true ↔ tagName ∈ tags) :
    Listed (groups.insert name g') { r with stored := Function.update r.stored name tags } := by
  have hmem : name ∈ r.order :=
    (h.keys name).mp (Std.ExtTreeMap.isSome_getElem?_iff_mem.mp (hg ▸ rfl))
  have hinsert := h.insert name g' tags hg'
  rw [if_pos hmem] at hinsert
  exact hinsert

/-- A group that is there is changed but for the names of its tags. -/
theorem Listed.keep {groups : Groups} {r : Roll} (h : Listed groups r) {name : CStr}
    {g : TagGroup} (hg : groups[name]? = some g) (g' : TagGroup)
    (hkeep : ∀ tagName, g'.has tagName = true ↔ g.has tagName = true) :
    Listed (groups.insert name g') r := by
  have hreplace := h.replace hg g' (r.stored name) fun tagName =>
    (hkeep tagName).trans (h.tags name g hg tagName)
  rw [Function.update_eq_self] at hreplace
  exact hreplace

/-- A tag that is there is registered again. -/
theorem Listed.again {groups : Groups} {r : Roll} (h : Listed groups r) {name tagName : CStr}
    {g : TagGroup} (hg : groups[name]? = some g) (hhas : g.has tagName = true) :
    Listed groups { r with stored := Function.update r.stored name (tagName :: r.stored name) } := by
  refine ⟨h.keys, h.nodup, fun other g' hg' otherTag => ?_⟩
  by_cases heq : other = name
  · subst heq
    obtain rfl := Option.some.inj (hg.symm.trans hg')
    simp only [Function.update_self, List.mem_cons]
    rw [h.tags other g hg]
    refine ⟨.inr, fun hor => hor.elim (fun htag => ?_) id⟩
    rw [htag]
    exact (h.tags other g hg tagName).mp hhas
  · simp only [Function.update_of_ne heq]
    exact h.tags other g' hg' otherTag

/-! ## Groups that have their container -/

/-- The protocols whose tags are in the group itself. -/
def TagGroup.Held (g : TagGroup) : Prop := g.protocol.hasImpl = false → g.tags.isSome = true

/-- What holds of every group. -/
def Groups.Held (groups : Groups) : Prop :=
  ∀ (name : CStr) (g : TagGroup), groups[name]? = some g → g.Held

/-- A group that is stored is held as the others. -/
theorem Groups.Held.insert {groups : Groups} (h : groups.Held) (name : CStr) {g : TagGroup}
    (hg : g.Held) : Groups.Held (groups.insert name g) := by
  intro other g' hg'
  rw [Std.ExtTreeMap.getElem?_insert] at hg'
  split at hg'
  · obtain rfl := Option.some.inj hg'
    exact hg
  · exact h other g' hg'

/-- Groups that are changed are held as before. -/
theorem Groups.Held.map {groups : Groups} (h : groups.Held) {f : CStr → TagGroup → TagGroup}
    (hf : ∀ name (g : TagGroup), g.Held → (f name g).Held) : Groups.Held (groups.map f) := by
  intro name g hg
  rw [Std.ExtTreeMap.getElem?_map] at hg
  obtain ⟨g', hg', rfl⟩ := Option.map_eq_some_iff.mp hg
  exact hf name g' (h name g' hg')

theorem held_register {g : TagGroup} (h : g.Held) (tagName : CStr) (ty : TagType) :
    (g.register tagName ty).2.Held := by
  unfold TagGroup.register
  split
  · exact fun _ => rfl
  · split
    · exact fun _ => rfl
    · exact h

theorem held_cleanup (g : TagGroup) : g.cleanup.Held := by
  intro himpl
  have himpl : g.protocol.hasImpl = false := himpl
  simp only [TagGroup.cleanup, himpl, Bool.false_eq_true, if_false, Option.isSome_some]

theorem held_handed {g : TagGroup} (h : g.Held) (tagName : CStr) (o : Handed) :
    (g.handed tagName o).Held := by
  unfold TagGroup.handed
  cases hprotocol : g.protocol with
  | opcUa =>
    simp only
    split
    · split
      · intro himpl
        exact Option.isSome_map.trans (Option.isSome_map.trans (h (hprotocol ▸ himpl)))
      · intro himpl
        exact Option.isSome_map.trans (h (hprotocol ▸ himpl))
    · exact h
  | ads | rtde | mqtt | softPlc => exact h
  | s7 =>
    intro himpl
    exact Option.isSome_map.trans (h (hprotocol ▸ himpl))
  | plctag name =>
    intro himpl
    exact Option.isSome_map.trans (h (hprotocol ▸ himpl))

theorem held_poll {g : TagGroup} (h : g.Held) (o : Polled) : (g.poll o).Held := by
  unfold TagGroup.poll
  split
  · exact h
  · intro himpl
    have hsome := h himpl
    simp only
    cases htags : g.tags with
    | none =>
      rw [htags] at hsome
      cases hsome
    | some tags => rfl

/-- A group that is cleaned up has no tag. -/
theorem has_cleanup (g : TagGroup) (tagName : CStr) : g.cleanup.has tagName = false := by
  simp only [TagGroup.has, TagGroup.cleanup]
  split
  · rfl
  · exact Std.ExtTreeMap.contains_empty

/-! ## Calls -/

/-- A call changes the registry as it changes the roll. -/
theorem listed_call {s : State V} {r : Roll} (horder : s.tagGroupOrder = r.order)
    (h : Listed s.tagGroups r) (c : Call V) :
    (s.call c).2.tagGroupOrder = (r.call s c).order ∧
      Listed (s.call c).2.tagGroups (r.call s c) := by
  cases c with
  | registerTagGroup name pollingInterval protocol =>
    simp only [State.call, State.registerTagGroup, Roll.call]
    split
    · exact ⟨horder, h⟩
    · refine ⟨?_, h.insert name _ [] fun tagName => ?_⟩
      · have hexists : s.tagGroupExists name = true ↔ name ∈ r.order :=
          Std.ExtTreeMap.mem_iff_contains.symm.trans (h.keys name)
        simp only [horder, hexists]
      · refine iff_of_false ?_ List.not_mem_nil
        simp only [TagGroup.has]
        split <;> simp
  | registerTag name tagName ty =>
    simp only [State.call, Roll.call, State.registerTag]
    split
    · exact ⟨horder, h⟩
    · cases hg : s.tagGroups[name]? with
      | none => exact ⟨horder, h⟩
      | some g =>
        simp only
        by_cases hhas : g.has tagName = true
        · simp only [if_pos hhas, if_true]
          exact ⟨horder, h.again hg hhas⟩
        · simp only [if_neg hhas]
          by_cases htaken : (g.register tagName ty).1 = true
          · rw [if_pos htaken]
            refine ⟨horder, h.replace hg _ _ fun other => ?_⟩
            rw [has_register, List.mem_cons, h.tags name g hg other, htaken]
            simp only [true_and]
          · rw [if_neg htaken]
            refine ⟨horder, h.keep hg _ fun other => ?_⟩
            rw [has_register]
            simp only [htaken, false_and, false_or, Bool.false_eq_true]
  | setEnableComms value => exact ⟨horder, h⟩
  | setSimRunning value => exact ⟨horder, h⟩
  | process ticks =>
    simp only [State.call, State.process, Roll.call]
    split
    · exact ⟨horder, h.map _ r.stored h.tags⟩
    · exact ⟨horder, h⟩
  | write w =>
    simp only [State.call, State.write, Roll.call]
    split <;> exact ⟨horder, h⟩
  | clearTagGroups =>
    simp only [State.call, State.clearTagGroups, Roll.call]
    split
    · exact ⟨horder, h⟩
    · exact ⟨rfl, listed_empty⟩

theorem held_call {s : State V} (h : s.tagGroups.Held) (c : Call V) :
    (s.call c).2.tagGroups.Held := by
  cases c with
  | registerTagGroup name pollingInterval protocol =>
    simp only [State.call, State.registerTagGroup]
    split
    · exact h
    · refine h.insert name fun himpl => ?_
      simp only [himpl, Bool.false_eq_true, if_false, Option.isSome_some]
  | registerTag name tagName ty =>
    simp only [State.call, State.registerTag]
    split
    · exact h
    · cases hg : s.tagGroups[name]? with
      | none => exact h
      | some g =>
        simp only
        split
        · exact h
        · exact h.insert name (held_register (h name g hg) tagName ty)
  | setEnableComms value => exact h
  | setSimRunning value => exact h
  | process ticks =>
    simp only [State.call, State.process]
    split
    · exact h.map fun _ _ hg => hg
    · exact h
  | write w =>
    simp only [State.call, State.write]
    split <;> exact h
  | clearTagGroups =>
    simp only [State.call, State.clearTagGroups]
    split
    · exact h
    · intro name g hg
      rw [Std.ExtTreeMap.getElem?_empty] at hg
      cases hg

/-! ## The work thread -/

/-- A poll leaves the list. -/
theorem listed_processTagGroup {s : State V} {r : Roll} (h : Listed s.tagGroups r) (name : CStr)
    (o : Polled) : Listed (s.processTagGroup name o).2.tagGroups r := by
  unfold State.processTagGroup
  split
  · cases hg : s.tagGroups[name]? with
    | none => exact h
    | some g =>
      simp only
      split
      · exact h.keep hg _ fun tagName => has_poll
      · exact h.keep hg _ fun tagName => has_poll
  · exact h

/-- A poll leaves every group held. -/
theorem held_processTagGroup {s : State V} (h : s.tagGroups.Held) (name : CStr) (o : Polled) :
    (s.processTagGroup name o).2.tagGroups.Held := by
  unfold State.processTagGroup
  split
  · cases hg : s.tagGroups[name]? with
    | none => exact h
    | some g =>
      simp only
      split
      · exact h.insert name (held_poll (h name g hg) o)
      · exact h.insert name (held_poll (h name g hg) o)
  · exact h

/-- A poll leaves the order. -/
theorem processTagGroup_order (s : State V) (name : CStr) (o : Polled) :
    (s.processTagGroup name o).2.tagGroupOrder = s.tagGroupOrder := by
  unfold State.processTagGroup
  split
  · cases s.tagGroups[name]? with
    | none => rfl
    | some g =>
      simp only
      split <;> rfl
  · rfl

/-- A write that finds its group, and its tag where it is looked up, adds neither. -/
theorem listed_processWrite {s : State V} {r : Roll} (h : Listed s.tagGroups r)
    {w : WriteRequest V} {o : Handed}
    (hfinds : s.tagGroups[w.tagGroupName]?.any
      (fun g => !g.looksUp o || g.has w.tagName) = true) :
    Listed (s.processWrite w o).tagGroups r := by
  unfold State.processWrite
  cases hg : s.tagGroups[w.tagGroupName]? with
  | none =>
    rw [hg] at hfinds
    cases hfinds
  | some g =>
    rw [hg, Option.any_some, Bool.or_eq_true] at hfinds
    refine h.keep hg _ fun tagName => ?_
    show (g.handed w.tagName o).has tagName = true ↔ _
    rw [has_handed]
    refine ⟨fun hor => hor.elim id ?_, .inl⟩
    rintro ⟨-, hlooks, rfl⟩
    rw [hlooks] at hfinds
    exact hfinds.resolve_left Bool.false_ne_true

/-- A write leaves every group held. -/
theorem held_processWrite {s : State V} (h : s.tagGroups.Held) (w : WriteRequest V) (o : Handed) :
    (s.processWrite w o).tagGroups.Held := by
  unfold State.processWrite
  refine h.insert w.tagGroupName (held_handed ?_ w.tagName o)
  cases hg : s.tagGroups[w.tagGroupName]? with
  | none => exact fun _ => rfl
  | some g => exact h _ g hg

/-- A write that does not find its group, or its tag where it is looked up, adds it. -/
theorem not_listed_processWrite {s : State V} {r : Roll} (h : Listed s.tagGroups r)
    (hheld : s.tagGroups.Held) {w : WriteRequest V} {o : Handed}
    (hmisses : ¬ s.tagGroups[w.tagGroupName]?.any
      (fun g => !g.looksUp o || g.has w.tagName) = true) :
    ¬ Listed (s.processWrite w o).tagGroups r := by
  intro hafter
  have hthere : (s.processWrite w o).tagGroups[w.tagGroupName]? =
      some (((s.tagGroups[w.tagGroupName]?).getD {}).handed w.tagName o) :=
    Std.ExtTreeMap.getElem?_insert_self
  cases hg : s.tagGroups[w.tagGroupName]? with
  | none =>
    have hlisted := (hafter.keys w.tagGroupName).mp
      (Std.ExtTreeMap.isSome_getElem?_iff_mem.mp (hthere ▸ rfl))
    have hmem := (h.keys w.tagGroupName).mpr hlisted
    rw [← Std.ExtTreeMap.isSome_getElem?_iff_mem, hg] at hmem
    cases hmem
  | some g =>
    rw [hg, Option.any_some, Bool.or_eq_true, not_or, Bool.not_eq_true', Bool.not_eq_false]
      at hmisses
    rw [hg, Option.getD_some] at hthere
    obtain ⟨hlooks, hhas⟩ := hmisses
    have hsome : g.tags.isSome = true := by
      refine hheld _ g hg ?_
      unfold TagGroup.looksUp at hlooks
      cases hprotocol : g.protocol with
      | opcUa | s7 | plctag _ => rfl
      | ads | rtde | mqtt | softPlc =>
        rw [hprotocol] at hlooks
        cases hlooks
    have hadded := (hafter.tags _ _ hthere w.tagName).mp
      (has_handed.mpr (.inr ⟨hsome, hlooks, rfl⟩))
    exact hhas ((h.tags _ g hg w.tagName).mpr hadded)

/-! ## Runs -/

/-- What every run keeps. -/
def GroupsHeld (x : Rolled V) : Prop := x.1.comms.tagGroups.Held

/-- Every step leaves every group held. -/
theorem held_step (x : Rolled V) (l : Turn V) (h : GroupsHeld x) :
    GroupsHeld (Rolled.step x l) := by
  obtain ⟨m, r⟩ := x
  have hheld : m.comms.tagGroups.Held := h
  show (m.step l).comms.tagGroups.Held
  cases l with
  | call c => exact held_call hheld c
  | push i =>
    simp only [Shared.step]
    cases m.pushing[i]? with
    | none => exact hheld
    | some name => exact hheld
  | work handed polled =>
    simp only [Shared.step, Machine.workStep, Shared.worker]
    cases m.work with
    | pop =>
      cases m.comms.tagGroupQueue with
      | nil => exact hheld
      | cons name rest => exact hheld
    | flush name first =>
      cases m.comms.writeQueue with
      | nil => exact hheld
      | cons w rest => exact hheld
    | handing name first w => exact held_processWrite hheld w handed
    | cleanup name => exact hheld.map fun _ g _ => held_cleanup g
    | process name => exact held_processTagGroup hheld name polled
    | push name => exact hheld

/-- A step that finds what it writes to keeps the registry exact. -/
theorem exact_step (x : Rolled V) (l : Turn V) (h : Exact x) (hfinds : x.1.WriteFinds l) :
    Exact (Rolled.step x l) := by
  obtain ⟨m, r⟩ := x
  obtain ⟨horder, hlisted⟩ := exact_iff.mp h
  have horder : m.comms.tagGroupOrder = r.order := horder
  have hlisted : Listed m.comms.tagGroups r := hlisted
  apply exact_iff.mpr
  cases l with
  | call c => exact listed_call horder hlisted c
  | push i =>
    simp only [Rolled.step, watch, Shared.step, Roll.note]
    cases m.pushing[i]? with
    | none => exact ⟨horder, hlisted⟩
    | some name => exact ⟨horder, hlisted⟩
  | work handed polled =>
    simp only [Shared.WriteFinds] at hfinds
    simp only [Rolled.step, watch, Shared.step, Machine.workStep, Shared.worker, Roll.note]
    cases hwork : m.work with
    | pop =>
      cases m.comms.tagGroupQueue with
      | nil => exact ⟨horder, hlisted⟩
      | cons name rest => exact ⟨horder, hlisted⟩
    | flush name first =>
      cases m.comms.writeQueue with
      | nil => exact ⟨horder, hlisted⟩
      | cons w rest => exact ⟨horder, hlisted⟩
    | handing name first w =>
      rw [hwork] at hfinds
      exact ⟨horder, listed_processWrite hlisted hfinds⟩
    | cleanup name =>
      refine ⟨horder, hlisted.map _ _ fun _ g _ tagName => ?_⟩
      rw [has_cleanup]
      exact iff_of_false Bool.false_ne_true List.not_mem_nil
    | process name =>
      exact ⟨(processTagGroup_order m.comms name polled).trans horder,
        listed_processTagGroup hlisted name polled⟩
    | push name => exact ⟨horder, hlisted⟩

/-- A write that does not find its tag makes a group or a tag that no one registered. -/
theorem not_exact_step (x : Rolled V) (l : Turn V) (hheld : GroupsHeld x) (h : Exact x)
    (hmisses : ¬ x.1.WriteFinds l) : ¬ Exact (Rolled.step x l) := by
  obtain ⟨m, r⟩ := x
  have hlisted : Listed m.comms.tagGroups r := (exact_iff.mp h).2
  cases l with
  | call c => exact absurd trivial hmisses
  | push i => exact absurd trivial hmisses
  | work handed polled =>
    simp only [Shared.WriteFinds] at hmisses
    cases hwork : m.work with
    | handing name first w =>
      rw [hwork] at hmisses
      intro hexact
      have hafter := (exact_iff.mp hexact).2
      simp only [Rolled.step, watch, Shared.step, Machine.workStep, Shared.worker, Roll.note,
        hwork] at hafter
      exact not_listed_processWrite hlisted hheld hmisses hafter
    | pop | flush _ _ | cleanup _ | process _ | push _ =>
      rw [hwork] at hmisses
      exact absurd trivial hmisses

/-- In every state of a run the registry holds exactly what was registered, if and only if every
write the run hands over finds its group, and its tag where the protocol looks it up. -/
theorem registry_exact_iff_writes_find (turns : List (Turn V)) :
    Along Rolled.step Exact Rolled.init turns ↔
      Meets Shared.step Shared.WriteFinds {} turns := by
  have hwatched : Meets Rolled.step (fun x => x.1.WriteFinds) Rolled.init turns ↔
      Meets Shared.step Shared.WriteFinds {} turns :=
    meets_watch Shared.step Roll.note Shared.WriteFinds Rolled.init turns
  rw [← hwatched]
  refine along_iff_meets Rolled.step (fun x l hheld _ => held_step x l hheld)
    (fun x l _ hexact _ hfinds => exact_step x l hexact hfinds) (fun x _ hexact => hexact)
    (fun x l hheld hexact _ hmisses => not_exact_step x l hheld hexact hmisses)
    ?_ (exact_iff.mpr ⟨rfl, listed_empty⟩)
    (meets_of_forall Rolled.step (C := fun _ _ => True) (fun _ _ => trivial) _ turns)
  intro name g hg
  rw [show (Rolled.init : Rolled V).1.comms.tagGroups = ∅ from rfl,
    Std.ExtTreeMap.getElem?_empty] at hg
  cases hg

/-- The groups are cleared, and then the work thread hands over the write. -/
def handedAfterClear : List (Turn Bool) :=
  [.call (.registerTagGroup "G".toList 100 .s7), .call (.registerTag "G".toList "MB0".toList .uint8),
    .call (.setSimRunning true), .call (.write ⟨7, "G".toList, "MB0".toList, false⟩), .push 0,
    .call (.setSimRunning false), .call .clearTagGroups, .quiet, .quiet, .quiet]

/-- A write handed over after a clear makes a group that no one registered. -/
theorem phantom_after_clear : ¬ Along Rolled.step Exact Rolled.init handedAfterClear := by
  intro h
  have hkeys := h.last.keys "G".toList
  revert hkeys
  decide

end OipComms.Comms
