import OipComms.Backend.System

/-!
# Histories of the groups

A history goes along with a run and remembers something of each group: it begins anew with a group
that is registered, and takes note of everything that happens to the group. The run never reads it.

What relates a group to its history from the start, and is kept by all that happens to the group, is
kept by the steps of the machine (`History.every_step`), and, where it is about the groups of one
protocol, holds of these along every run (`History.along_protocol`).
-/

namespace OipComms.Backend

open Run

universe u

variable {V : Type} {γ : Type u}

/-- What a history remembers of a group: at first, and after something happened to the group, with
the next free address. -/
structure History (V : Type) (γ : Type u) where
  fresh : γ
  note : TagGroup V → Nat → GroupOp V → γ → γ

namespace History

variable (h : History V γ)

/-- What is remembered of the groups after a step. -/
def follow (m : Machine V) (l : Label V) (past : CStr → γ) : CStr → γ := fun name =>
  let after (op : GroupOp V) : γ := h.note (m.comms.group name) m.comms.next op (past name)
  match m.change l with
  | .nothing => past name
  | .one name' op => if name' = name then after op else past name
  | .all op => if m.comms.tagGroupExists name then after op else past name
  | .register name' _ => if name' = name then h.fresh else past name
  | .clear => h.fresh

/-- The start of every run. -/
def init : Machine V × (CStr → γ) := ({}, fun _ => h.fresh)

/-- Every group with what is remembered of it; a group that is not there is an empty one. -/
def Every (P : TagGroup V → γ → Prop) (x : Machine V × (CStr → γ)) : Prop :=
  ∀ name, P (x.1.comms.group name) (x.2 name)

section
variable [Rtde.GodotVariant V]

/-- A step with what is remembered. -/
def step : Machine V × (CStr → γ) → Label V → Machine V × (CStr → γ) := watch Machine.step h.follow

variable {h}

theorem every_step {P : TagGroup V → γ → Prop} {x : Machine V × (CStr → γ)} {l : Label V}
    (hx : Every P x) (hempty : P {} h.fresh)
    (hnew : ∀ pollingInterval protocol gateway path cpu,
      P (TagGroup.registered pollingInterval protocol gateway path cpu) h.fresh)
    (hop : ∀ y ∈ x.1.changed l, P y.2.1 (x.2 y.1) →
      P (y.2.1.after x.1.comms.next y.2.2).group (h.note y.2.1 x.1.comms.next y.2.2 (x.2 y.1))) :
    Every P (h.step x l) := by
  obtain ⟨m, past⟩ := x
  intro name
  have hgroups : (m.step l).comms.group name =
      ((m.comms.change (m.change l)).tagGroups[name]?).getD {} := by
    rw [State.group, (step_same m l).tagGroups]
  show P ((m.step l).comms.group name) (h.follow m l past name)
  rw [hgroups]
  unfold follow
  cases hchange : m.change l with
  | nothing => exact hx name
  | one name' op =>
    simp only
    by_cases hname : name' = name
    · subst hname
      have hone := hop (name', m.comms.group name', op)
        (by rw [Machine.changed, hchange]; exact List.mem_singleton_self _) (hx name')
      rw [if_pos rfl]
      simp only [State.change, Std.ExtTreeMap.getElem?_insert_self, Option.getD_some]
      exact hone
    · rw [if_neg hname]
      simp only [State.change, Std.ExtTreeMap.getElem?_insert,
        if_neg fun heq => hname (Std.compare_eq_iff_eq.mp heq)]
      exact hx name
  | all op =>
    simp only [State.change, State.changeAll, Std.ExtTreeMap.getElem?_map]
    cases hget : m.comms.tagGroups[name]? with
    | none =>
      have hnot : m.comms.tagGroupExists name = false :=
        Std.ExtTreeMap.contains_eq_isSome_getElem?.trans (congrArg Option.isSome hget)
      have hsame := hx name
      rw [State.group_of_none hget] at hsame
      rw [hnot, if_neg Bool.false_ne_true]
      exact hsame
    | some g =>
      have hexists : m.comms.tagGroupExists name = true :=
        Std.ExtTreeMap.contains_eq_isSome_getElem?.trans (congrArg Option.isSome hget)
      have hmem : (name, g, op) ∈ m.changed l := by
        rw [Machine.changed, hchange]
        exact List.mem_map.mpr
          ⟨(name, g), Std.ExtTreeMap.mem_toList_iff_getElem?_eq_some.mpr hget, rfl⟩
      have hsame := hx name
      have hgroup := State.group_of_some hget
      rw [hgroup] at hsame
      rw [hexists, if_pos rfl, hgroup]
      exact hop (name, g, op) hmem hsame
  | register name' g =>
    simp only
    by_cases hname : name' = name
    · subst hname
      obtain ⟨pollingInterval, protocol, gateway, path, cpu, rfl⟩ := Machine.change_register hchange
      rw [if_pos rfl]
      simp only [State.change, Std.ExtTreeMap.getElem?_insert_self, Option.getD_some]
      exact hnew pollingInterval protocol gateway path cpu
    · rw [if_neg hname]
      simp only [State.change, Std.ExtTreeMap.getElem?_insert,
        if_neg fun heq => hname (Std.compare_eq_iff_eq.mp heq)]
      exact hx name
  | clear =>
    have hcleared : (m.comms.change (.clear : Change V)).tagGroups = ∅ := rfl
    rw [hcleared, Std.ExtTreeMap.getElem?_empty]
    exact hempty

omit [Rtde.GodotVariant V] in
theorem every_init {P : TagGroup V → γ → Prop} (hempty : P {} h.fresh) : Every P h.init := by
  intro name
  have hgroup : (h.init : Machine V × _).1.comms.group name = {} :=
    State.group_of_none Std.ExtTreeMap.getElem?_empty
  rw [hgroup]
  exact hempty

/-- What relates the groups of one protocol to their history, along a run: a group keeps its
protocol until it is registered again. -/
theorem along_protocol {P : TagGroup V → γ → Prop} (protocol : Comms.Protocol)
    (hempty : P {} h.fresh)
    (hnew : ∀ pollingInterval protocol gateway path cpu,
      P (TagGroup.registered pollingInterval protocol gateway path cpu) h.fresh)
    (hafter : ∀ (g : TagGroup V) (past : γ), P g past → g.protocol = protocol →
      ∀ next op, P (g.after next op).group (h.note g next op past))
    (ops : List (Label V)) :
    Along h.step (fun x => ∀ (name : CStr) (g : TagGroup V),
      x.1.comms.tagGroups[name]? = some g → g.protocol = protocol → P g (x.2 name))
      h.init ops := by
  refine (along_of_invariant h.step
    (J := Every fun g past => g.protocol = protocol → P g past) (fun x l hx => ?_)
    (every_init fun _ => hempty) ops).mono _ fun x hx name g hget hprotocol => ?_
  · refine every_step hx (fun _ => hempty) (fun _ _ _ _ _ _ => hnew _ _ _ _ _)
      fun y hy hP hprotocol => ?_
    have hsame : y.2.1.protocol = protocol :=
      (Visit.apply_protocol { group := y.2.1, next := x.1.comms.next } y.2.2).symm.trans hprotocol
    exact hafter y.2.1 (x.2 y.1) (hP hsame) hsame x.1.comms.next y.2.2
  · have hgroup := hx name
    rw [State.group_of_some hget] at hgroup
    exact hgroup hprotocol

end

end History

end OipComms.Backend
