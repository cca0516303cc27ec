import OipComms.Backend.S7Group
import OipComms.Backend.System

/-!
# S7 groups as groups of a backend

`Backend/Plc.lean` has the S7 library answer as the environment likes. The library of
`S7/Interface.lean` is one such environment: for what it answers, a run of S7 groups is a run of the
groups of `Backend/System.lean`, operation by operation, so that what holds there of every run holds
of groups polled through the library.
-/

namespace OipComms.Backend

open Comms (TagType WriteRequest)
open Run S7 Sweep

variable {V σ : Type}

/-! ## The answers of a poll -/

/-- The library, asked in the order of the loop, answers as the environment says. -/
def Answers (net : Net σ) (gateway : CStr) (env : PlcEnv) :
    List (CStr × PlcTag) → S7State σ → Prop
  | [], _ => True
  | (tagName, tag) :: rest, lib =>
    ∃ tag', (ensureS7Tag net lib gateway tagName tag).1 = .ok tag' ∧
      (tag.tagPointer < 0 → tag'.tagPointer = env.s7TagCreate gateway tagName) ∧
      (tag'.tagPointer < 0 ∨
        Answers net gateway env rest (ensureS7Tag net lib gateway tagName tag).2)

/-- Only the names in the list are asked for. -/
theorem Answers.congr {net : Net σ} {gateway : CStr} {env env' : PlcEnv}
    {entries : List (CStr × PlcTag)} {lib : S7State σ} (h : Answers net gateway env entries lib)
    (henv : ∀ x ∈ entries, env'.s7TagCreate gateway x.1 = env.s7TagCreate gateway x.1) :
    Answers net gateway env' entries lib := by
  induction entries generalizing lib with
  | nil => trivial
  | cons x rest ih =>
    obtain ⟨tagName, tag⟩ := x
    obtain ⟨tag', hensure, hcreate, hrest⟩ := h
    refine ⟨tag', hensure, fun hneg => ?_, hrest.imp_right fun hrest => ?_⟩
    · rw [henv _ List.mem_cons_self]
      exact hcreate hneg
    · exact ih hrest fun x hx => henv x (List.mem_cons_of_mem _ hx)

/-- Whether a handle's link is up does not change while tags are created: a new connection is not
yet connected. -/
theorem s7TagConnected_create (net : Net σ) (s : S7State σ) (host tagName : CStr) (handle : Int) :
    s7TagConnected (s7TagCreate net s host tagName).2 handle = s7TagConnected s handle := by
  have hregister : ∀ (plc : S7Plc σ) c, (plc.s7RegisterTag c tagName).2.identifier = plc.identifier ∧
      (plc.s7RegisterTag c tagName).2.state = plc.state := by
    intro plc c
    rcases plc.s7RegisterTag_cases c tagName with ⟨-, hsame, -⟩ | ⟨-, tag, area, -, -, -, hreg⟩
    · rw [hsame]
      exact ⟨rfl, rfl⟩
    · rw [hreg]
      exact ⟨plc.addTag_identifier area tag, plc.setBlock_state area _⟩
  unfold s7TagConnected
  rcases s7TagCreate_cases net s host tagName with ⟨pre, plc, post, hsplit, -, -, heq⟩ | ⟨-, heq⟩
  · obtain ⟨hid, hstate⟩ := hregister plc s.tagIdCounter
    rw [heq, hsplit, List.find?_append, List.find?_append]
    cases pre.find? (hasPlcId handle) with
    | some p => rfl
    | none =>
      rw [Option.none_or, Option.none_or, List.find?_cons, List.find?_cons,
        show hasPlcId handle (plc.s7RegisterTag s.tagIdCounter tagName).2 = hasPlcId handle plc by
          rw [hasPlcId, hid, hasPlcId]]
      cases hasPlcId handle plc with
      | true => simp only [hstate]
      | false => rfl
  · obtain ⟨-, hstate⟩ := hregister (S7Plc.new net s.plcIdCounter host) s.tagIdCounter
    rw [heq, List.find?_append]
    cases s.s7Plcs.find? (hasPlcId handle) with
    | some p => rfl
    | none =>
      rw [Option.none_or, List.find?_singleton]
      cases hasPlcId handle ((S7Plc.new net s.plcIdCounter host).s7RegisterTag s.tagIdCounter
        tagName).2 with
      | true =>
        rw [if_pos rfl]
        simp only [hstate]
        rfl
      | false => rfl

/-- The first half of a turn: the tag has the handle the library gave. -/
theorem ensure_agrees (net : Net σ) {lib : S7State σ} {g : TagGroup V} {tagName : CStr}
    {tag tag' : PlcTag} {env : PlcEnv} (hprotocol : g.protocol = .s7)
    (hensure : (ensureS7Tag net lib g.gateway tagName tag).1 = .ok tag')
    (hcreate : tag.tagPointer < 0 → tag'.tagPointer = env.s7TagCreate g.gateway tagName) :
    ∃ calls, ensurePlcTag env g tagName tag =
      { entry := tag', out := { calls := calls }, goes := decide (0 ≤ tag'.tagPointer) } := by
  rw [ensureS7Tag] at hensure
  rw [ensurePlcTag]
  by_cases hpointer : tag.tagPointer < 0
  · rw [if_pos hpointer] at hensure ⊢
    have htag : tag' = { tag with tagPointer := env.s7TagCreate g.gateway tagName } := by
      cases hret : (s7TagCreate net lib g.gateway tagName).1 with
      | error e =>
        simp only [hret, Except.map] at hensure
        cases hensure
      | ok tagPointer =>
        simp only [hret, Except.map, Except.ok.injEq] at hensure
        have hgiven := hcreate hpointer
        subst hensure
        rw [← hgiven]
    rw [initPlcTag, if_pos hprotocol, ← hcreate hpointer]
    by_cases hneg : tag'.tagPointer < 0
    · refine ⟨[], ?_⟩
      rw [if_pos hneg, decide_eq_false (Int.not_le.mpr hneg), htag]
    · refine ⟨[.acquire (plcResource g.protocol tag'.tagPointer)], ?_⟩
      rw [if_neg hneg, if_pos hprotocol, decide_eq_true (Int.not_lt.mp hneg), htag]
  · rw [if_neg hpointer] at hensure ⊢
    obtain rfl := Except.ok.inj hensure
    refine ⟨[], ?_⟩
    rw [decide_eq_true (Int.not_lt.mp hpointer)]

/-- A turn, from the tag with the handle the library gave. -/
theorem poll_ensured (net : Net σ) {lib : S7State σ} {g : TagGroup V} {tagName : CStr}
    {tag tag' : PlcTag} {env : PlcEnv} (hprotocol : g.protocol = .s7)
    (hensure : (ensureS7Tag net lib g.gateway tagName tag).1 = .ok tag')
    (hcreate : tag.tagPointer < 0 → tag'.tagPointer = env.s7TagCreate g.gateway tagName) :
    ∃ calls, pollPlcTag env g tagName tag =
      if tag'.tagPointer < 0 then
        { entry := tag', out := { failed := true, calls := calls }, goes := false }
      else if env.s7TagConnected tag'.tagPointer then
        { entry := { tag' with dirty := false, initialized := true }
          out := { counted := if tag'.initialized then 0 else 1, calls := calls } }
      else { entry := tag', out := { calls := calls } } := by
  obtain ⟨calls, hagrees⟩ := ensure_agrees net hprotocol hensure hcreate
  refine ⟨calls, ?_⟩
  rw [pollPlcTag, hagrees]
  by_cases hneg : tag'.tagPointer < 0
  · simp only [if_pos hneg, decide_eq_false (Int.not_le.mpr hneg), Bool.not_false, if_true]
  · simp only [if_neg hneg, decide_eq_true (Int.not_lt.mp hneg), Bool.not_true, Bool.false_eq_true,
      if_false, if_pos hprotocol, Nat.zero_add]

/-- Asking for a tag's handle leaves the links as they are. -/
theorem s7TagConnected_ensure (net : Net σ) (lib : S7State σ) (gateway tagName : CStr) (tag : PlcTag)
    (handle : Int) :
    s7TagConnected (ensureS7Tag net lib gateway tagName tag).2 handle =
      s7TagConnected lib handle := by
  rw [ensureS7Tag]
  split
  · exact s7TagConnected_create net lib gateway tagName handle
  · rfl

/-- A turn of the library's group is one of the environment's. -/
theorem turn_agrees (net : Net σ) {h : S7Host V σ} {name tagName : CStr} {tag : PlcTag}
    {env : PlcEnv} {rest : List (CStr × PlcTag)} (hprotocol : (h.group name).protocol = .s7)
    (hanswers : Answers net (h.group name).gateway env ((tagName, tag) :: rest) h.lib)
    (hlink : ∀ p, env.s7TagConnected p = decide (s7TagConnected h.lib p ≠ 0)) :
    h.turn net name tagName tag =
      ((pollPlcTag env (h.group name) tagName tag).goes,
        { h with lib := (ensureS7Tag net h.lib (h.group name).gateway tagName tag).2 }.withGroup name
          { h.group name with
            plcTags := (h.group name).plcTags.insert tagName
              (pollPlcTag env (h.group name) tagName tag).entry
            initCount := (h.group name).initCount +
              (pollPlcTag env (h.group name) tagName tag).out.counted
            hasError := (h.group name).hasError ||
              (pollPlcTag env (h.group name) tagName tag).out.failed }) := by
  obtain ⟨tag', hensure, hcreate, -⟩ := hanswers
  obtain ⟨calls, hpoll⟩ := poll_ensured net hprotocol hensure hcreate
  have hup := s7TagConnected_ensure net h.lib (h.group name).gateway tagName tag tag'.tagPointer
  rw [S7Host.turn, hpoll, hlink, ← hup]
  generalize ensureS7Tag net h.lib (h.group name).gateway tagName tag = r at hensure
  obtain ⟨ret, lib⟩ := r
  obtain rfl := hensure
  by_cases hneg : tag'.tagPointer < 0
  · simp only [if_pos hneg, Bool.or_true]
    rfl
  · simp only [if_neg hneg]
    by_cases hconnected : s7TagConnected lib tag'.tagPointer ≠ 0
    · simp only [if_pos hconnected, decide_eq_true hconnected, if_true, Bool.or_false]
      rfl
    · simp only [if_neg hconnected, decide_eq_false hconnected, Bool.false_eq_true, if_false,
        Bool.or_false]
      rfl

/-! ## A poll -/

/-- A group is put in its place twice. -/
theorem insert_insert (m : Std.ExtTreeMap CStr (TagGroup V)) (name : CStr) (g g' : TagGroup V) :
    (m.insert name g).insert name g' = m.insert name g' := by
  ext name' g''
  rw [getElem?_insert_iff, getElem?_insert_iff, getElem?_insert_iff]
  constructor
  · rintro (hnew | ⟨hne, ⟨heq, -⟩ | ⟨-, hold⟩⟩)
    · exact .inl hnew
    · exact absurd heq hne
    · exact .inr ⟨hne, hold⟩
  · rintro (hnew | ⟨hne, hold⟩)
    · exact .inl hnew
    · exact .inr ⟨hne, .inr ⟨hne, hold⟩⟩

/-- A group that is there is put in its place. -/
theorem insert_group (h : S7Host V σ) {name : CStr} (hname : h.groups.contains name = true) :
    h.groups.insert name (h.group name) = h.groups := by
  rw [← Std.ExtTreeMap.mem_iff_contains, Std.ExtTreeMap.mem_iff_isSome_getElem?] at hname
  obtain ⟨g, hget⟩ := Option.isSome_iff_exists.mp hname
  ext name' g'
  rw [getElem?_insert_iff, S7Host.group, hget, Option.getD_some]
  constructor
  · rintro (⟨rfl, rfl⟩ | ⟨-, hold⟩)
    · exact hget
    · exact hold
  · intro hold
    by_cases heq : name' = name
    · subst heq
      exact .inl ⟨rfl, Option.some.inj (hold.symm.trans hget)⟩
    · exact .inr ⟨heq, hold⟩

/-- What the turns on the entries leave of a group. -/
def TagGroup.swept (g : TagGroup V) (env : PlcEnv) (entries : List (CStr × PlcTag)) : TagGroup V :=
  ((({ group := g, next := 0 } : Visit V).withGroup
    { g with plcTags := g.plcTags.map (turned (pollPlcTag (V := V) env g) entries) }).absorb
      ((visited (pollPlcTag (V := V) env g) entries).map fun x => (pollPlcTag env g x.1 x.2).out)).group

/-- Of a group a turn sees the protocol and the gateway. -/
theorem pollPlcTag_congr {env : PlcEnv} {g g' : TagGroup V} (hprotocol : g.protocol = .s7)
    (hprotocol' : g'.protocol = .s7) (hgateway : g'.gateway = g.gateway) :
    pollPlcTag env g' = pollPlcTag env g := by
  funext tagName tag
  simp only [pollPlcTag, ensurePlcTag, initPlcTag, hprotocol, hprotocol', hgateway, if_true]

/-- The first turn, and the others on what it leaves. -/
theorem swept_cons {env : PlcEnv} {g g' : TagGroup V} {x : CStr × PlcTag}
    {rest : List (CStr × PlcTag)} (hprotocol : g.protocol = .s7)
    (hget : g.plcTags[x.1]? = some x.2) (hx : x.1 ∉ rest.map Prod.fst)
    (hg' : g' = { g with
      plcTags := g.plcTags.insert x.1 (pollPlcTag env g x.1 x.2).entry
      initCount := g.initCount + (pollPlcTag env g x.1 x.2).out.counted
      hasError := g.hasError || (pollPlcTag env g x.1 x.2).out.failed }) :
    g.swept env (x :: rest) =
      if (pollPlcTag env g x.1 x.2).goes then g'.swept env rest else g' := by
  have hsame : pollPlcTag env g' = pollPlcTag env g :=
    pollPlcTag_congr hprotocol (by rw [hg']; exact hprotocol) (by rw [hg'])
  rw [TagGroup.swept, map_turned_cons _ hget hx, visited]
  split
  · rw [TagGroup.swept, hsame, List.map_cons, Visit.absorb_cons, hg']
    simp only [Visit.withGroup, Visit.absorb, List.map_cons, List.map_nil, List.sum_cons,
      List.sum_nil, List.any_cons, List.any_nil, Nat.add_zero, Bool.or_false]
  · rw [hg']
    simp only [Visit.withGroup, Visit.absorb, List.map_cons, List.map_nil, List.sum_cons,
      List.sum_nil, List.any_cons, List.any_nil, Nat.add_zero, Bool.or_false]

/-- The loop of a poll leaves what the sweep leaves. -/
theorem turns_agree (net : Net σ) {h : S7Host V σ} {name : CStr} {env : PlcEnv}
    {entries : List (CStr × PlcTag)} (hahead : S7Host.Sound.Ahead name entries h)
    (hprotocol : (h.group name).protocol = .s7)
    (hanswers : Answers net (h.group name).gateway env entries h.lib)
    (hlink : ∀ p, env.s7TagConnected p = decide (s7TagConnected h.lib p ≠ 0)) :
    (h.turns net name entries).2.groups =
      h.groups.insert name ((h.group name).swept env entries) := by
  induction entries generalizing h with
  | nil =>
    rw [S7Host.turns, TagGroup.swept, map_turned_nil, visited, List.map_nil, Visit.absorb_nil]
    exact (insert_group h hahead.there).symm
  | cons x rest ih =>
    obtain ⟨tagName, tag⟩ := x
    have hget := hahead.stored _ List.mem_cons_self
    have hx := (List.nodup_cons.mp hahead.nodup).1
    rw [swept_cons hprotocol hget hx rfl, S7Host.turns, turn_agrees net hprotocol hanswers hlink]
    obtain ⟨tag', hensure, hcreate, hrest⟩ := hanswers
    obtain ⟨calls, hpoll⟩ := poll_ensured net hprotocol hensure hcreate
    cases hgoes : (pollPlcTag env (h.group name) tagName tag).goes with
    | false => rfl
    | true =>
      generalize hleft : ({ h.group name with
        plcTags := (h.group name).plcTags.insert tagName
          (pollPlcTag env (h.group name) tagName tag).entry
        initCount := (h.group name).initCount +
          (pollPlcTag env (h.group name) tagName tag).out.counted
        hasError := (h.group name).hasError ||
          (pollPlcTag env (h.group name) tagName tag).out.failed } : TagGroup V) = g
      have hrest : Answers net (h.group name).gateway env rest
          (ensureS7Tag net h.lib (h.group name).gateway tagName tag).2 := by
        refine hrest.resolve_left fun hneg => ?_
        rw [hpoll, if_pos hneg] at hgoes
        cases hgoes
      have hagain : ({ h with lib :=
          (ensureS7Tag net h.lib (h.group name).gateway tagName tag).2 }.withGroup name g).group name
          = g := by
        rw [S7Host.group, S7Host.withGroup, Std.ExtTreeMap.getElem?_insert_self]
        rfl
      have hahead := (hahead.lib (ensureS7Tag net h.lib (h.group name).gateway tagName tag).2).putTag
        (g := g) (by rw [← hleft]; rfl)
      have hturn := ih hahead (by rw [hagain, ← hleft]; exact hprotocol)
        (by rw [hagain, ← hleft]; exact hrest) (fun p => by rw [hlink p, ← s7TagConnected_ensure]; rfl)
      rw [hagain] at hturn
      exact hturn.trans (insert_insert _ _ _ _)

/-- The handle the library gives a tag in the loop. -/
def answersOf (net : Net σ) (gateway : CStr) :
    List (CStr × PlcTag) → S7State σ → CStr → Int
  | [], _, _ => 0
  | (tagName, tag) :: rest, lib, name =>
    if name = tagName then
      match (ensureS7Tag net lib gateway tagName tag).1 with
      | .ok tag => tag.tagPointer
      | .error _ => 0
    else answersOf net gateway rest (ensureS7Tag net lib gateway tagName tag).2 name

/-- The environment of a poll of a group: the library, as it answers in its loop. -/
def S7Host.plcEnv (net : Net σ) (h : S7Host V σ) (name : CStr) : PlcEnv where
  s7TagCreate gateway tagName :=
    answersOf net gateway (h.group name).plcTags.toList h.lib tagName
  s7TagConnected p := decide (s7TagConnected h.lib p ≠ 0)

/-- A turn that throws nothing has the tag's handle, and leaves the rest to the library it left. -/
theorem turn_kept (net : Net σ) (h : S7Host V σ) (name tagName : CStr) (tag : PlcTag) :
    (h.turn net name tagName tag).1 = false ∧ (h.turn net name tagName tag).2.thrown = true ∨
      ∃ tag', (ensureS7Tag net h.lib (h.group name).gateway tagName tag).1 = .ok tag' ∧
        ((h.turn net name tagName tag).1 = false → tag'.tagPointer < 0) ∧
        ((h.turn net name tagName tag).2.group name).gateway = (h.group name).gateway ∧
        (h.turn net name tagName tag).2.lib =
          (ensureS7Tag net h.lib (h.group name).gateway tagName tag).2 := by
  unfold S7Host.turn
  generalize ensureS7Tag net h.lib (h.group name).gateway tagName tag = r
  obtain ⟨ret, lib⟩ := r
  have hgateway : ∀ g : TagGroup V, g.gateway = (h.group name).gateway →
      ((({ h with lib := lib } : S7Host V σ).withGroup name g).group name).gateway =
        (h.group name).gateway := by
    intro g hg
    rw [S7Host.group, S7Host.withGroup, Std.ExtTreeMap.getElem?_insert_self]
    exact hg
  cases ret with
  | error e => exact .inl ⟨rfl, rfl⟩
  | ok tag' =>
    refine .inr ⟨tag', rfl, ?_⟩
    simp only
    split
    · rename_i hneg
      exact ⟨fun _ => hneg, hgateway _ rfl, rfl⟩
    split
    · exact ⟨fun hgoes => absurd hgoes Bool.noConfusion, hgateway _ rfl, rfl⟩
    · exact ⟨fun hgoes => absurd hgoes Bool.noConfusion, hgateway _ rfl, rfl⟩

/-- A loop that no exception ends. -/
theorem answers_of (net : Net σ) {h : S7Host V σ} {name : CStr} {entries : List (CStr × PlcTag)}
    (hnodup : (entries.map Prod.fst).Nodup)
    (hthrown : (h.turns net name entries).2.thrown = false) {env : PlcEnv}
    (henv : ∀ x ∈ entries, env.s7TagCreate (h.group name).gateway x.1 =
      answersOf net (h.group name).gateway entries h.lib x.1) :
    Answers net (h.group name).gateway env entries h.lib := by
  induction entries generalizing h with
  | nil => trivial
  | cons x rest ih =>
    obtain ⟨tagName, tag⟩ := x
    obtain ⟨hnot, hnodup⟩ := List.nodup_cons.mp hnodup
    have hself := henv _ List.mem_cons_self
    rw [answersOf, if_pos rfl] at hself
    rw [S7Host.turns] at hthrown
    have hkept := turn_kept net h name tagName tag
    generalize h.turn net name tagName tag = r at hthrown hkept
    obtain ⟨goes, h'⟩ := r
    rcases hkept with ⟨rfl, hthrown'⟩ | ⟨tag', hensure, hneg, hgateway, hlib⟩
    · exact absurd (hthrown.symm.trans hthrown') Bool.false_ne_true
    · rw [hensure] at hself
      refine ⟨tag', hensure, fun _ => hself.symm, ?_⟩
      cases goes with
      | false => exact .inl (hneg rfl)
      | true =>
        have hrest := ih (h := h') hnodup hthrown fun x hx => by
          have hx' := henv x (List.mem_cons_of_mem _ hx)
          have hmem : x.1 ∈ rest.map Prod.fst := List.mem_map_of_mem hx
          have hne : x.1 ≠ tagName := fun heq => hnot (heq ▸ hmem)
          rw [answersOf, if_neg hne] at hx'
          rw [hgateway, hlib]
          exact hx'
        rw [hgateway, hlib] at hrest
        exact .inr hrest

/-! ## Runs -/

/-- What an operation does to the groups, with what the library answers. -/
def S7Op.change [Rtde.GodotVariant V] (net : Net σ) (h : S7Host V σ) : S7Op V σ → Change V
  | .registerTag name tagName ty =>
    if h.groups.contains name then .one name (.registerTag tagName ty) else .nothing
  | .poll name =>
    if h.groups.contains name then .one name (.poll { plc := h.plcEnv net name }) else .nothing
  | .write float32 w =>
    if h.groups.contains w.tagGroupName then
      .one w.tagGroupName (.write { written := (h.write net float32 w).1 = 0 } w)
    else .nothing
  | .cleanup name => if h.groups.contains name then .one name .cleanup else .nothing
  | .polled _ _ => .nothing

/-- What the operations of a run do. -/
def changes [Rtde.GodotVariant V] (net : Net σ) : S7Host V σ → List (S7Op V σ) → List (Change V)
  | _, [] => []
  | h, op :: ops => op.change net h :: changes net (h.step net op) ops

/-- All groups are S7 groups. -/
def S7Host.AllS7 (h : S7Host V σ) : Prop :=
  ∀ (name : CStr) (g : TagGroup V), h.groups[name]? = some g → g.protocol = .s7

theorem S7Host.AllS7.group {h : S7Host V σ} (hs7 : h.AllS7) {name : CStr}
    (hname : h.groups.contains name = true) : (h.group name).protocol = .s7 := by
  rw [← Std.ExtTreeMap.mem_iff_contains, Std.ExtTreeMap.mem_iff_isSome_getElem?] at hname
  obtain ⟨g, hget⟩ := Option.isSome_iff_exists.mp hname
  rw [S7Host.group, hget]
  exact hs7 name g hget

/-- A poll that throws nothing is one of the environment's. -/
theorem poll_agrees (net : Net σ) {h : S7Host V σ} {name : CStr} (hs7 : h.AllS7)
    (hname : h.groups.contains name = true) (hthrown : (h.poll net name).thrown = false)
    (next : Nat) :
    (h.poll net name).groups = h.groups.insert name
      (({ group := h.group name, next := next } : Visit V).processTagGroup
        { plc := h.plcEnv net name }).group := by
  rw [S7Host.poll] at hthrown ⊢
  rw [Visit.processTagGroup]
  by_cases herror : (h.group name).hasError = true
  · rw [if_pos herror, if_pos herror]
    exact (insert_group h hname).symm
  rw [if_neg herror] at hthrown ⊢
  rw [if_neg herror]
  have hgroups : (h.turns net name (h.group name).plcTags.toList).2.thrown = false →
      (h.turns net name (h.group name).plcTags.toList).2.groups = h.groups.insert name
        ((h.group name).swept (h.plcEnv net name) (h.group name).plcTags.toList) := fun hthrown =>
    turns_agree net (S7Host.Sound.ahead_toList hname) (hs7.group hname)
      (answers_of net (Sweep.nodup_keys _) hthrown fun x hx => rfl) fun p => rfl
  simp only [hs7.group hname]
  generalize h.turns net name (h.group name).plcTags.toList = r at hthrown hgroups
  obtain ⟨ended, h'⟩ := r
  cases ended with
  | false => exact hgroups hthrown
  | true =>
    simp only at hthrown ⊢
    split at hthrown
    · exact hgroups hthrown
    · exact hgroups hthrown

/-- A tag is registered as the group registers it. -/
theorem register_agrees [Rtde.GodotVariant V] {h : S7Host V σ} {name : CStr} (hs7 : h.AllS7)
    (hname : h.groups.contains name = true) (tagName : CStr) (ty : TagType) (next : Nat) :
    (if !h.groups.contains name || (h.group name).has tagName then h
      else h.withGroup name ((h.group name).putTag tagName
        ((h.group name).protocol.newTag ty) 0)).groups =
      h.groups.insert name ((h.group name).after next (.registerTag tagName ty)).group := by
  rw [TagGroup.after, hname]
  show _ = h.groups.insert name
    (if (h.group name).has tagName then _ else Prod.snd (Visit.registerTag _ _ _)).group
  by_cases hhas : (h.group name).has tagName = true
  · rw [hhas, if_pos rfl, if_pos (by rfl)]
    exact (insert_group h hname).symm
  · rw [Bool.not_eq_true] at hhas
    rw [hhas, if_neg Bool.false_ne_true, if_neg (by decide), Visit.registerTag]
    simp only [hs7.group hname]
    rw [← hs7.group hname]
    rfl

/-- A write is handed over as the group hands it over. -/
theorem write_agrees [Rtde.GodotVariant V] (net : Net σ) {h : S7Host V σ} (hs7 : h.AllS7)
    (float32 : UInt64) {w : WriteRequest V} (hname : h.groups.contains w.tagGroupName = true)
    (next : Nat) :
    (h.write net float32 w).2.groups = h.groups.insert w.tagGroupName
      ((h.group w.tagGroupName).after next
        (.write { written := (h.write net float32 w).1 = 0 } w)).group := by
  rw [TagGroup.after]
  show _ = h.groups.insert _ (Visit.processWrite _ _ _).group
  rw [Visit.processWrite]
  simp only [hs7.group hname]
  rw [S7Host.write, TagGroup.plcTagSet]
  generalize ((h.group w.tagGroupName).plcTags[w.tagName]?).getD {} = tag
  simp only [Visit.withGroup, S7Host.withGroup, TagGroup.putTag, Nat.add_zero]
  by_cases hpointer : 0 ≤ tag.tagPointer
  · simp only [if_pos hpointer, decide_eq_true hpointer, Bool.true_and]
  · simp only [if_neg hpointer, decide_eq_false hpointer, Bool.false_and]
    rfl

/-- A group is cleaned up as the group is. -/
theorem cleanup_agrees [Rtde.GodotVariant V] {h : S7Host V σ} {name : CStr} (hs7 : h.AllS7)
    (hname : h.groups.contains name = true) (next : Nat) :
    (h.cleanup name).groups =
      h.groups.insert name ((h.group name).after next .cleanup).group := by
  rw [TagGroup.after]
  show _ = h.groups.insert name (Visit.cleanup _).group
  rw [Visit.cleanup, Visit.release]
  simp only [hs7.group hname]
  rw [← hs7.group hname]
  rfl

/-- An operation that throws nothing makes its change. -/
theorem step_agrees [Rtde.GodotVariant V] (net : Net σ) {h : S7Host V σ} (hs7 : h.AllS7)
    {op : S7Op V σ} (hthrown : (h.step net op).thrown = false) {s : State V}
    (hsame : s.tagGroups = h.groups) :
    (s.change (op.change net h)).tagGroups = (h.step net op).groups := by
  have hone : ∀ name op, (s.change (.one name op)).tagGroups =
      h.groups.insert name ((h.group name).after s.next op).group := by
    intro name op
    rw [State.change, State.group, hsame, S7Host.group]
  unfold S7Host.step at hthrown ⊢
  split at hthrown
  · rename_i hyes
    exact absurd (hthrown.symm.trans hyes) Bool.false_ne_true
  rename_i hno
  rw [if_neg hno]
  cases op with
  | registerTag name tagName ty =>
    simp only [S7Op.change]
    by_cases hname : h.groups.contains name = true
    · rw [if_pos hname, hone]
      exact (register_agrees hs7 hname tagName ty s.next).symm
    · rw [if_neg hname, Bool.eq_false_iff.mpr hname]
      exact hsame
  | poll name =>
    simp only [S7Op.change] at hthrown ⊢
    by_cases hname : h.groups.contains name = true
    · rw [if_pos hname] at hthrown
      rw [if_pos hname, if_pos hname, hone]
      exact (poll_agrees net hs7 hname hthrown s.next).symm
    · rw [if_neg hname, if_neg hname]
      exact hsame
  | write float32 w =>
    simp only [S7Op.change]
    by_cases hname : h.groups.contains w.tagGroupName = true
    · rw [if_pos hname, if_pos hname, hone]
      exact (write_agrees net hs7 float32 hname s.next).symm
    · rw [if_neg hname, if_neg hname]
      exact hsame
  | cleanup name =>
    simp only [S7Op.change]
    by_cases hname : h.groups.contains name = true
    · rw [if_pos hname, if_pos hname, hone]
      exact (cleanup_agrees hs7 hname s.next).symm
    · rw [if_neg hname, if_neg hname]
      exact hsame
  | polled i seen => exact hsame

/-- What an operation does, it does to an S7 group. -/
theorem allS7_step [Rtde.GodotVariant V] (net : Net σ) {h : S7Host V σ} (hs7 : h.AllS7)
    {op : S7Op V σ} (hthrown : (h.step net op).thrown = false) : (h.step net op).AllS7 := by
  have hone : ∀ (name : CStr) (op : GroupOp V), h.groups.contains name = true →
      ∀ (name' : CStr) (g : TagGroup V),
        (({ tagGroups := h.groups } : State V).change (.one name op)).tagGroups[name']? = some g →
        g.protocol = .s7 := by
    intro name op hname name' g hget
    rcases (getElem?_insert_iff _ _ _ _ _).mp hget with ⟨-, rfl⟩ | ⟨-, hget⟩
    · exact (Visit.apply_protocol _ op).trans (hs7.group hname)
    · exact hs7 name' g hget
  rw [S7Host.AllS7, ← step_agrees net hs7 hthrown (s := { tagGroups := h.groups }) rfl]
  cases op with
  | polled i seen => exact hs7
  | registerTag _ _ _ | poll _ | write _ _ | cleanup _ =>
    rw [S7Op.change]
    split
    · rename_i hname
      exact hone _ _ hname
    · exact hs7

/-- A run of S7 groups that share the library is a run of groups whose backends answer as they
like: what holds of all of these holds of the library's. -/
theorem s7_run_refines [Rtde.GodotVariant V] (net : Net σ) {h : S7Host V σ} (hs7 : h.AllS7)
    {ops : List (S7Op V σ)} (hthrown : (run (S7Host.step net) h ops).thrown = false) {s : State V}
    (hsame : s.tagGroups = h.groups) :
    (run State.change s (changes net h ops)).tagGroups =
      (run (S7Host.step net) h ops).groups := by
  induction ops generalizing h s with
  | nil => exact hsame
  | cons op ops ih =>
    rw [run_cons] at hthrown ⊢
    have hnow : (h.step net op).thrown = false := by
      rw [← Bool.not_eq_true]
      intro hyes
      have hstill : ∀ h' : S7Host V σ, h'.thrown = true → ∀ op, (h'.step net op).thrown = true := by
        intro h' hthrown op
        unfold S7Host.step
        rw [if_pos hthrown]
        exact hthrown
      have hend := run_of_invariant (S7Host.step net)
        (J := fun h' => h'.thrown = true) (fun h' op hthrown => hstill h' hthrown op) hyes ops
      exact absurd (hthrown.symm.trans hend) Bool.false_ne_true
    rw [changes, run_cons]
    exact ih (allS7_step net hs7 hnow) hthrown (step_agrees net hs7 hnow hsame)

theorem s7_run_refines_two_groups :
    (run State.change ({ tagGroups := (twoGroups : S7Host Bool Unit).groups } : State Bool)
      (changes deadNet twoGroups twoGroupsOps)).tagGroups =
      (run (S7Host.step deadNet) twoGroups twoGroupsOps).groups :=
  s7_run_refines deadNet (fun name g hget => (twoGroups_fresh.groups name g hget).1)
    (by decide +kernel) rfl

end OipComms.Backend
