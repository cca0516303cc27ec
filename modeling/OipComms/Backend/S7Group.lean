import OipComms.Backend.Dispatch
import OipComms.S7.OneHost

/-!
# S7 groups and the library they share

`Backend/Plc.lean` leaves to the environment what the S7 library answers. Here the groups of
protocol `s7` and the library of `S7/Interface.lean` are one state: a poll creates the tags that have
no handle and flushes the connection through its first tag, a write caches and sends a value, a
clean-up destroys the handles, and the polling threads of the connections run in between.

A handle does not say which connection it is for (`S7/Handles.lean`), so the groups are taken to name
one gateway. Then each handle a tag has leads to the tag its name denotes, no two tags have the same,
and the library has no other tags (`s7_tags_lead`).
-/

namespace OipComms.Backend

open Comms (TagType WriteRequest)
open Run S7

variable {V σ : Type}

/-- The S7 groups by name and the S7 library; `thrown` is that an exception of `std::stoi` has left
the work thread, which ends the program. -/
structure S7Host (V σ : Type) where
  groups : Std.ExtTreeMap CStr (TagGroup V) := ∅
  lib : S7State σ := {}
  thrown : Bool := false

def S7Host.group (h : S7Host V σ) (name : CStr) : TagGroup V := (h.groups[name]?).getD {}

def S7Host.withGroup (h : S7Host V σ) (name : CStr) (g : TagGroup V) : S7Host V σ :=
  { h with groups := h.groups.insert name g }

/-- A tag of a group is stored, and counted. -/
def TagGroup.putTag (g : TagGroup V) (tagName : CStr) (tag : PlcTag) (counted : Nat) : TagGroup V :=
  { g with plcTags := g.plcTags.insert tagName tag, initCount := g.initCount + counted }

/-! ## Polls -/

/-- `init_plc_tag` in an S7 group, if the tag has no handle. -/
def ensureS7Tag (net : Net σ) (lib : S7State σ) (gateway tagName : CStr) (tag : PlcTag) :
    Except StoiError PlcTag × S7State σ :=
  if tag.tagPointer < 0 then
    let (ret, lib) := s7TagCreate net lib gateway tagName
    (ret.map fun tagPointer => { tag with tagPointer := tagPointer }, lib)
  else (.ok tag, lib)

/-- A tag's turn in `process_plc_tag_group`, and whether the loop goes on. -/
def S7Host.turn (net : Net σ) (h : S7Host V σ) (name tagName : CStr) (tag : PlcTag) :
    Bool × S7Host V σ :=
  let (ret, lib) := ensureS7Tag net h.lib (h.group name).gateway tagName tag
  let h := { h with lib := lib }
  match ret with
  | .error _ => (false, { h with thrown := true })
  | .ok tag =>
    if tag.tagPointer < 0 then
      (false, h.withGroup name ((h.group name).putTag tagName tag 0).errs)
    else if s7TagConnected lib tag.tagPointer ≠ 0 then
      (true, h.withGroup name ((h.group name).putTag tagName
        { tag with dirty := false, initialized := true } (if tag.initialized then 0 else 1)))
    else (true, h.withGroup name ((h.group name).putTag tagName tag 0))

/-- The loop of `process_plc_tag_group`, and whether it comes to its end. -/
def S7Host.turns (net : Net σ) (name : CStr) :
    List (CStr × PlcTag) → S7Host V σ → Bool × S7Host V σ
  | [], h => (true, h)
  | (tagName, tag) :: rest, h =>
    match h.turn net name tagName tag with
    | (true, h) => S7Host.turns net name rest h
    | (false, h) => (false, h)

/-- `process_tag_group` of an S7 group. -/
def S7Host.poll (net : Net σ) (h : S7Host V σ) (name : CStr) : S7Host V σ :=
  if (h.group name).hasError then h
  else
    match h.turns net name (h.group name).plcTags.toList with
    | (false, h) => h
    | (true, h) =>
      match (h.group name).plcTags.toList.head? with
      | none => h
      | some (_, tag) => { h with lib := (s7TagFlush net h.lib tag.tagPointer).2 }

/-! ## Writes and clean-ups -/

/-- What `S7_tag_set_*` passes on, by the instruction of a request. `S7_tag_set_float32` takes eight
bytes from the address of its four-byte argument: `float32` is what stands there. -/
def s7Value [Rtde.GodotVariant V] (float32 : UInt64) (instruction : Nat) (value : V) :
    Option UInt64 :=
  let int (t : IntType) := toUInt64 (t.ofUInt64 (Rtde.GodotVariant.toInt64 value))
  match instructionType instruction with
  | some .bool | some .int32 => some (int .int32)
  | some .uint64 => some (int .uint64)
  | some .int64 => some (int .int64)
  | some .uint32 => some (int .uint32)
  | some .uint16 => some (int .uint16)
  | some .int16 => some (int .int16)
  | some .uint8 => some (int .uint8)
  | some .int8 => some (int .int8)
  | some .float64 => some (Rtde.GodotVariant.toDouble value)
  | some .float32 => some float32
  | none => none

/-- `process_write` in an S7 group: the status it goes by, and what it leaves. -/
def S7Host.write [Rtde.GodotVariant V] (net : Net σ) (h : S7Host V σ) (float32 : UInt64)
    (w : WriteRequest V) : Int × S7Host V σ :=
  let g := h.group w.tagGroupName
  let tag := (g.plcTags[w.tagName]?).getD {}
  let (status, lib) :=
    if 0 ≤ tag.tagPointer then
      s7TagWrite net
        (match s7Value float32 w.instruction w.value with
        | some bits => (s7WriteTag h.lib tag.tagPointer bits).2
        | none => h.lib)
        tag.tagPointer
    else (-1, h.lib)
  (status, { h with lib := lib }.withGroup w.tagGroupName
    (g.putTag w.tagName { tag with dirty := tag.dirty || status = 0 } 0))

/-- `cleanup_tag_group` of an S7 group. -/
def S7Host.cleanup (h : S7Host V σ) (name : CStr) : S7Host V σ :=
  let g := h.group name
  { h with
    lib := g.plcTags.toList.foldl
      (fun lib (x : CStr × PlcTag) => (s7TagDestroy lib x.2.tagPointer).2) h.lib }.withGroup name
    { g with plcTags := ∅, initCount := 0, initCountEmitted := false, hasError := false }

/-! ## Runs -/

/-- What happens to the groups and the library. The polling thread of the `i`-th connection may do
anything but rename it or change its tags. -/
inductive S7Op (V σ : Type)
  | registerTag (name tagName : CStr) (ty : TagType)
  | poll (name : CStr)
  | write (float32 : UInt64) (w : WriteRequest V)
  | cleanup (name : CStr)
  | polled (i : Nat) (seen : S7Plc σ)

/-- It happens, as long as the program runs. A group that is not there is not an S7 group. -/
def S7Host.step [Rtde.GodotVariant V] (net : Net σ) (h : S7Host V σ) (op : S7Op V σ) : S7Host V σ :=
  if h.thrown then h
  else
    match op with
    | .registerTag name tagName ty =>
      if !h.groups.contains name || (h.group name).has tagName then h
      else h.withGroup name ((h.group name).putTag tagName ((h.group name).protocol.newTag ty) 0)
    | .poll name => if h.groups.contains name then h.poll net name else h
    | .write float32 w =>
      if h.groups.contains w.tagGroupName then (h.write net float32 w).2 else h
    | .cleanup name => if h.groups.contains name then h.cleanup name else h
    | .polled i seen =>
      { h with lib := { h.lib with
          s7Plcs := h.lib.s7Plcs.modify i fun plc => plc.polledAs seen } }

/-! ## Who has which handle -/

/-- The handle a tag has. -/
def PlcTag.handle (tag : PlcTag) : Option Int :=
  if 0 ≤ tag.tagPointer then some tag.tagPointer else none

/-- The handle of a tag of a group. -/
def S7Host.handle (h : S7Host V σ) (name tagName : CStr) : Option Int :=
  h.groups[name]?.bind fun g => g.plcTags[tagName]?.bind PlcTag.handle

/-- The handles after a group is stored. -/
theorem handle_withGroup (h : S7Host V σ) (name : CStr) (g : TagGroup V) (name' tagName : CStr) :
    (h.withGroup name g).handle name' tagName =
      if name' = name then g.plcTags[tagName]?.bind PlcTag.handle else h.handle name' tagName := by
  unfold S7Host.handle S7Host.withGroup
  rw [Std.ExtTreeMap.getElem?_insert]
  by_cases heq : name' = name
  · subst heq
    rw [if_pos rfl, if_pos Std.ReflCmp.compare_self]
    rfl
  · rw [if_neg heq, if_neg fun hcmp => heq (Std.LawfulEqCmp.eq_of_compare hcmp).symm]

/-- The handle of a tag is that of its entry in the group. -/
theorem handle_group (h : S7Host V σ) (name tagName : CStr) :
    h.handle name tagName = (h.group name).plcTags[tagName]?.bind PlcTag.handle := by
  unfold S7Host.handle S7Host.group
  cases h.groups[name]? with
  | none => rfl
  | some g => rfl

/-- The entry that `operator[]` gives has the handle that is there, or none. -/
theorem handle_getD (h : S7Host V σ) (name tagName : CStr) :
    (((h.group name).plcTags[tagName]?).getD {}).handle = h.handle name tagName := by
  rw [handle_group]
  cases (h.group name).plcTags[tagName]? with
  | none => rfl
  | some tag => rfl

/-- One tag is stored. -/
theorem handle_insert (h : S7Host V σ) {name tagName : CStr} {tag : PlcTag} {g : TagGroup V}
    (hg : g.plcTags = (h.group name).plcTags.insert tagName tag) (name' tagName' : CStr) :
    (h.withGroup name g).handle name' tagName' =
      if name' = name ∧ tagName' = tagName then tag.handle else h.handle name' tagName' := by
  rw [handle_withGroup]
  by_cases hname : name' = name
  · subst hname
    rw [if_pos rfl, hg, Std.ExtTreeMap.getElem?_insert, handle_group]
    by_cases htag : tagName' = tagName
    · subst htag
      rw [if_pos Std.ReflCmp.compare_self, if_pos ⟨rfl, rfl⟩]
      rfl
    · rw [if_neg fun hcmp => htag (Std.LawfulEqCmp.eq_of_compare hcmp).symm,
        if_neg fun hboth => htag hboth.2]
  · rw [if_neg hname, if_neg fun hboth => hname hboth.1]

/-- All groups are S7 groups and name one gateway. -/
def S7Host.OfGateway (gateway : CStr) (h : S7Host V σ) : Prop :=
  ∀ (name : CStr) (g : TagGroup V), h.groups[name]? = some g → g.protocol = .s7 ∧ g.gateway = gateway

/-- All groups name one gateway, and the handles are shared out: each leads to the tag its name
denotes, no two tags have the same, and the library has no tag but for a handle. -/
structure S7Host.Sound (gateway : CStr) (tags : List S7Tag) (h : S7Host V σ) : Prop where
  groups : h.OfGateway gateway
  lib : OneHost gateway tags h.lib
  leads : ∀ {name tagName p}, h.handle name tagName = some p →
    ∃ tag ∈ tags, p = 16777216 + tag.identifier ∧ decodeTag tag.identifier tagName = .ok tag
  apart : ∀ {name tagName name' tagName' p}, h.handle name tagName = some p →
    h.handle name' tagName' = some p → name = name' ∧ tagName = tagName'
  held : ∀ tag ∈ tags, ∃ name tagName, h.handle name tagName = some (16777216 + tag.identifier)

namespace S7Host.Sound

variable {gateway : CStr} {tags : List S7Tag} {h h' : S7Host V σ}

/-- A group of the host. -/
theorem group (hsound : h.Sound gateway tags) {name : CStr} (hname : h.groups.contains name = true) :
    (h.group name).protocol = .s7 ∧ (h.group name).gateway = gateway := by
  rw [← Std.ExtTreeMap.mem_iff_contains, Std.ExtTreeMap.mem_iff_isSome_getElem?] at hname
  obtain ⟨g, hg⟩ := Option.isSome_iff_exists.mp hname
  rw [S7Host.group, hg]
  exact hsound.groups name g hg

/-- A group is stored that is still one of the gateway's. -/
theorem groups_withGroup (hsound : h.Sound gateway tags) {name : CStr} {g : TagGroup V}
    (hg : g.protocol = .s7 ∧ g.gateway = gateway) :
    (h.withGroup name g).OfGateway gateway := by
  intro name' g' hget
  rcases (Sweep.getElem?_insert_iff _ _ _ _ _).mp hget with ⟨-, rfl⟩ | ⟨-, hold⟩
  · exact hg
  · exact hsound.groups name' g' hold

/-- Nothing happens to the handles or to the tags that are registered. -/
theorem same (hsound : h.Sound gateway tags)
    (hgroups : h'.OfGateway gateway)
    (hhandle : ∀ name tagName, h'.handle name tagName = h.handle name tagName)
    (hlib : OneHost gateway tags h'.lib) : h'.Sound gateway tags where
  groups := hgroups
  lib := hlib
  leads hp := hsound.leads ((hhandle _ _).symm.trans hp)
  apart hp hp' := hsound.apart ((hhandle _ _).symm.trans hp) ((hhandle _ _).symm.trans hp')
  held tag htag := by
    obtain ⟨name, tagName, hp⟩ := hsound.held tag htag
    exact ⟨name, tagName, (hhandle _ _).trans hp⟩

/-- A tag that has no handle is given that of a tag just registered under its name. -/
theorem given (hsound : h.Sound gateway tags)
    (hgroups : h'.OfGateway gateway)
    {name tagName : CStr} {tag : S7Tag} (hnone : h.handle name tagName = none)
    (hdecode : decodeTag tag.identifier tagName = .ok tag)
    (hhandle : ∀ name' tagName', h'.handle name' tagName' =
      if name' = name ∧ tagName' = tagName then some (16777216 + tag.identifier : Int)
      else h.handle name' tagName')
    (hlib : OneHost gateway (tags ++ [tag]) h'.lib) : h'.Sound gateway (tags ++ [tag]) := by
  have hself : h'.handle name tagName = some (16777216 + tag.identifier : Int) := by
    rw [hhandle, if_pos ⟨rfl, rfl⟩]
  have hother : ∀ {name' tagName' p}, h'.handle name' tagName' = some p →
      name' = name ∧ tagName' = tagName ∧ p = 16777216 + tag.identifier ∨
        h.handle name' tagName' = some p := by
    intro name' tagName' p hp
    rw [hhandle] at hp
    by_cases hboth : name' = name ∧ tagName' = tagName
    · rw [if_pos hboth] at hp
      exact .inl ⟨hboth.1, hboth.2, (Option.some.inj hp).symm⟩
    · rw [if_neg hboth] at hp
      exact .inr hp
  have hnew : ∀ {name' tagName'},
      h.handle name' tagName' ≠ some (16777216 + tag.identifier : Int) := by
    intro name' tagName' hp
    obtain ⟨t, ht, heq, -⟩ := hsound.leads hp
    have hnodup := hlib.nodup
    rw [List.map_append] at hnodup
    refine (List.nodup_append.mp hnodup).2.2 _ (List.mem_map_of_mem ht) _
      (List.mem_map_of_mem List.mem_cons_self) ?_
    omega
  refine ⟨hgroups, hlib, fun hp => ?_, fun hp hp' => ?_, fun t ht => ?_⟩
  · rcases hother hp with ⟨rfl, rfl, rfl⟩ | hp
    · exact ⟨tag, List.mem_append_right _ List.mem_cons_self, rfl, hdecode⟩
    · obtain ⟨t, ht, hrest⟩ := hsound.leads hp
      exact ⟨t, List.mem_append_left _ ht, hrest⟩
  · rcases hother hp with ⟨rfl, rfl, rfl⟩ | hold
    · rcases hother hp' with ⟨rfl, rfl, -⟩ | hold'
      · exact ⟨rfl, rfl⟩
      · exact absurd hold' hnew
    · rcases hother hp' with ⟨rfl, rfl, rfl⟩ | hold'
      · exact absurd hold hnew
      · exact hsound.apart hold hold'
  · rcases List.mem_append.mp ht with ht | ht
    · obtain ⟨name', tagName', hp⟩ := hsound.held t ht
      refine ⟨name', tagName', ?_⟩
      rw [hhandle, if_neg, hp]
      rintro ⟨rfl, rfl⟩
      rw [hnone] at hp
      cases hp
    · rw [List.mem_singleton.mp ht]
      exact ⟨name, tagName, hself⟩

/-- A group gives its handles back. -/
theorem givenBack (hsound : h.Sound gateway tags)
    (hgroups : h'.OfGateway gateway)
    {name : CStr} {tags' : List S7Tag}
    (hhandle : ∀ name' tagName, h'.handle name' tagName =
      if name' = name then none else h.handle name' tagName)
    (htags : ∀ tag, tag ∈ tags' ↔ tag ∈ tags ∧
      ∀ tagName, h.handle name tagName ≠ some (16777216 + tag.identifier : Int))
    (hlib : OneHost gateway tags' h'.lib) : h'.Sound gateway tags' := by
  have hother : ∀ {name' tagName p}, h'.handle name' tagName = some p →
      name' ≠ name ∧ h.handle name' tagName = some p := by
    intro name' tagName p hp
    rw [hhandle] at hp
    by_cases hname : name' = name
    · rw [if_pos hname] at hp
      cases hp
    · rw [if_neg hname] at hp
      exact ⟨hname, hp⟩
  refine ⟨hgroups, hlib, fun hp => ?_, fun hp hp' => ?_, fun tag htag => ?_⟩
  · obtain ⟨hname, hp⟩ := hother hp
    obtain ⟨tag, htag, rfl, hdecode⟩ := hsound.leads hp
    refine ⟨tag, (htags tag).mpr ⟨htag, fun tagName hmine => ?_⟩, rfl, hdecode⟩
    exact hname (hsound.apart hp hmine).1
  · exact hsound.apart (hother hp).2 (hother hp').2
  · obtain ⟨htag, hnot⟩ := (htags tag).mp htag
    obtain ⟨name', tagName, hp⟩ := hsound.held tag htag
    refine ⟨name', tagName, ?_⟩
    rw [hhandle, if_neg, hp]
    rintro rfl
    exact hnot tagName hp

/-! ## The loop of a poll -/

/-- The entries a loop has yet to visit. -/
structure Ahead (name : CStr) (entries : List (CStr × PlcTag)) (h : S7Host V σ) : Prop where
  there : h.groups.contains name = true
  nodup : (entries.map Prod.fst).Nodup
  stored : ∀ x ∈ entries, (h.group name).plcTags[x.1]? = some x.2

/-- What storing a tag leaves of the entries ahead. -/
theorem Ahead.putTag {name tagName : CStr} {tag tag' : PlcTag} {entries : List (CStr × PlcTag)}
    (hahead : Ahead name ((tagName, tag) :: entries) h) {g : TagGroup V}
    (hg : g.plcTags = (h.group name).plcTags.insert tagName tag') :
    Ahead name entries (h.withGroup name g) := by
  obtain ⟨hnot, hnodup⟩ := List.nodup_cons.mp hahead.nodup
  have hgroup : (h.withGroup name g).group name = g := by
    rw [S7Host.group, S7Host.withGroup, Std.ExtTreeMap.getElem?_insert_self]
    rfl
  refine ⟨?_, hnodup, fun x hx => ?_⟩
  · rw [S7Host.withGroup, Std.ExtTreeMap.contains_insert_self]
  · rw [hgroup, hg, Std.ExtTreeMap.getElem?_insert, if_neg, hahead.stored x (List.mem_cons_of_mem _ hx)]
    intro hcmp
    have hname : tagName = x.1 := Std.LawfulEqCmp.eq_of_compare hcmp
    have hmem : x.1 ∈ entries.map Prod.fst := List.mem_map_of_mem hx
    rw [← hname] at hmem
    exact hnot hmem

/-- What is ahead is so whatever the library has done. -/
theorem Ahead.lib {name : CStr} {entries : List (CStr × PlcTag)} (hahead : Ahead name entries h)
    (lib : S7State σ) : Ahead name entries { h with lib := lib } :=
  ⟨hahead.there, hahead.nodup, hahead.stored⟩

/-- The handle of the entry a loop is at. -/
theorem Ahead.handle {name tagName : CStr} {tag : PlcTag} {entries : List (CStr × PlcTag)}
    (hahead : Ahead name ((tagName, tag) :: entries) h) : h.handle name tagName = tag.handle := by
  rw [handle_group, hahead.stored _ List.mem_cons_self]
  rfl

/-- A tag is stored that has the handle the one before it had. -/
theorem stored (hsound : h.Sound gateway tags) {name tagName : CStr}
    (hname : h.groups.contains name = true) {tag : PlcTag} {g : TagGroup V}
    (hg : g.plcTags = (h.group name).plcTags.insert tagName tag)
    (hgateway : g.protocol = (h.group name).protocol ∧ g.gateway = (h.group name).gateway)
    (hhandle : tag.handle = h.handle name tagName) : (h.withGroup name g).Sound gateway tags := by
  obtain ⟨hprotocol, hgw⟩ := hsound.group hname
  refine hsound.same (hsound.groups_withGroup ⟨hgateway.1.trans hprotocol, hgateway.2.trans hgw⟩)
    (fun name' tagName' => ?_) hsound.lib
  rw [handle_insert h hg]
  split
  · rename_i hboth
    rw [hboth.1, hboth.2, hhandle]
  · rfl

/-- The library goes on with the same tags. -/
theorem withLib (hsound : h.Sound gateway tags) {lib : S7State σ} (hlib : OneHost gateway tags lib)
    (thrown : Bool) : ({ h with lib := lib, thrown := thrown } : S7Host V σ).Sound gateway tags :=
  hsound.same hsound.groups (fun _ _ => rfl) hlib

/-- A tag with its handle, created if it has none: it is stored with it, or creating it failed. -/
theorem ensured (hsound : h.Sound gateway tags) (net : Net σ) {name tagName : CStr} {tag : PlcTag}
    (hname : h.groups.contains name = true) (hhandle : h.handle name tagName = tag.handle)
    (hcounts : h.lib.tagIdCounter + 1 < 16777216) :
    ∃ ret lib, ensureS7Tag net h.lib gateway tagName tag = (ret, lib) ∧
      lib.tagIdCounter ≤ h.lib.tagIdCounter + 1 ∧
      ((∃ tag₁ tags', ret = .ok tag₁ ∧ 0 ≤ tag₁.tagPointer ∧
        ∀ (tag₂ : PlcTag) counted, tag₂.tagPointer = tag₁.tagPointer →
          (({ h with lib := lib } : S7Host V σ).withGroup name
            ((h.group name).putTag tagName tag₂ counted)).Sound gateway tags') ∨
      (accepts tagName = false ∧ tag.handle = none ∧
        (∀ tag₁, ret = .ok tag₁ → tag₁.tagPointer < 0) ∧ OneHost gateway tags lib)) := by
  obtain ⟨hprotocol, hgw⟩ := hsound.group hname
  rw [ensureS7Tag]
  by_cases hpointer : tag.tagPointer < 0
  · rw [if_pos hpointer]
    have hnone : tag.handle = none := if_neg (Int.not_le.mpr hpointer)
    have hcounter := s7TagCreate_counter net h.lib gateway tagName
    rw [nextTagId_eq hcounts] at hcounter
    have hcreate := hsound.lib.create net tagName hcounts
    generalize s7TagCreate net h.lib gateway tagName = answer at hcounter hcreate
    obtain ⟨ret, lib⟩ := answer
    refine ⟨_, lib, rfl, Nat.le_of_eq hcounter, ?_⟩
    rcases hcreate with ⟨new, hdecode, hret, hlib⟩ | ⟨hno, hret, hlib⟩
    · left
      have hid : new.identifier = h.lib.tagIdCounter := (decodeTag_decoded hdecode).identifier
      have hnew : (0 : Int) ≤ 16777216 + new.identifier := by omega
      refine ⟨{ tag with tagPointer := 16777216 + new.identifier }, tags ++ [new], ?_, hnew, ?_⟩
      · rw [show ret = _ from hret]
        rfl
      · intro tag₂ counted htag₂
        have htag : tag₂.handle = some (16777216 + new.identifier : Int) := by
          rw [PlcTag.handle, htag₂, if_pos hnew]
        have hinsert := handle_insert ({ h with lib := lib } : S7Host V σ)
          (show ((h.group name).putTag tagName tag₂ counted).plcTags = _ from rfl)
        rw [htag] at hinsert
        have hgroups : (({ h with lib := lib } : S7Host V σ).withGroup name
            ((h.group name).putTag tagName tag₂ counted)).OfGateway gateway :=
          hsound.groups_withGroup ⟨hprotocol, hgw⟩
        exact hsound.given hgroups (hhandle.trans hnone) (hid ▸ hdecode) hinsert hlib
    · right
      refine ⟨hno, hnone, fun tag₁ htag₁ => ?_, hlib⟩
      cases ret with
      | error e => cases htag₁
      | ok ret =>
        obtain rfl := Except.ok.inj htag₁
        exact hret ret rfl
  · rw [if_neg hpointer]
    refine ⟨_, _, rfl, Nat.le_succ _, .inl ⟨tag, tags, rfl, Int.not_lt.mp hpointer, ?_⟩⟩
    intro tag₂ counted htag₂
    refine hsound.stored hname rfl ⟨rfl, rfl⟩ ?_
    rw [hhandle, PlcTag.handle, htag₂, PlcTag.handle]

/-- A poll's turn on a tag. -/
theorem turn (hsound : h.Sound gateway tags) (net : Net σ) {name tagName : CStr} {tag : PlcTag}
    {entries : List (CStr × PlcTag)} (hahead : Ahead name ((tagName, tag) :: entries) h)
    (hcounts : h.lib.tagIdCounter + 1 < 16777216) :
    (∃ tags', (h.turn net name tagName tag).2.Sound gateway tags') ∧
      (h.turn net name tagName tag).2.lib.tagIdCounter ≤ h.lib.tagIdCounter + 1 ∧
      ((h.turn net name tagName tag).1 = true →
        Ahead name entries (h.turn net name tagName tag).2) := by
  obtain ⟨ret, lib, hensure, hcounter, hcases⟩ :=
    hsound.ensured net hahead.there hahead.handle hcounts
  rw [S7Host.turn, (hsound.group hahead.there).2, hensure]
  rcases hcases with ⟨tag₁, tags', rfl, hpointer, hstore⟩ | ⟨-, hnone, hfailed, hlib⟩
  · simp only [if_neg (Int.not_lt.mpr hpointer)]
    split
    · exact ⟨⟨tags', hstore _ _ rfl⟩, hcounter, fun _ => (hahead.lib lib).putTag rfl⟩
    · exact ⟨⟨tags', hstore _ _ rfl⟩, hcounter, fun _ => (hahead.lib lib).putTag rfl⟩
  · cases ret with
    | error e => exact ⟨⟨tags, hsound.withLib hlib true⟩, hcounter, fun h => nomatch h⟩
    | ok tag₁ =>
      have hneg := hfailed tag₁ rfl
      simp only [if_pos hneg]
      refine ⟨⟨tags, ?_⟩, hcounter, fun h => nomatch h⟩
      refine (hsound.withLib hlib h.thrown).stored hahead.there rfl ⟨rfl, rfl⟩ ?_
      rw [PlcTag.handle, if_neg (Int.not_le.mpr hneg)]
      exact (hahead.handle.trans hnone).symm

/-- The loop of a poll. -/
theorem turns (hsound : h.Sound gateway tags) (net : Net σ) {name : CStr}
    {entries : List (CStr × PlcTag)} (hahead : Ahead name entries h)
    (hcounts : h.lib.tagIdCounter + entries.length < 16777216) :
    ∃ tags', (h.turns net name entries).2.Sound gateway tags' := by
  induction entries generalizing h tags with
  | nil => exact ⟨tags, hsound⟩
  | cons x entries ih =>
    obtain ⟨tagName, tag⟩ := x
    rw [List.length_cons] at hcounts
    obtain ⟨⟨tags', hturn⟩, hcounter, hrest⟩ := hsound.turn net hahead (by omega)
    rw [S7Host.turns]
    generalize h.turn net name tagName tag = r at *
    obtain ⟨goes, h'⟩ := r
    cases goes with
    | true => exact ih hturn (hrest rfl) (by simp only at hcounter; omega)
    | false => exact ⟨tags', hturn⟩

/-! ## The operations -/

/-- The loop of a poll begins with all entries ahead. -/
theorem ahead_toList {name : CStr} (hname : h.groups.contains name = true) :
    Ahead name (h.group name).plcTags.toList h :=
  ⟨hname, Sweep.nodup_keys _, fun _ hx => Std.ExtTreeMap.mem_toList_iff_getElem?_eq_some.mp hx⟩

/-- A poll keeps the handles shared out. -/
theorem poll (hsound : h.Sound gateway tags) (net : Net σ) {name : CStr}
    (hname : h.groups.contains name = true)
    (hcounts : h.lib.tagIdCounter + (h.group name).plcTags.size < 16777216) :
    ∃ tags', (h.poll net name).Sound gateway tags' := by
  rw [S7Host.poll]
  split
  · exact ⟨tags, hsound⟩
  rw [← Std.ExtTreeMap.length_toList] at hcounts
  obtain ⟨tags', hturns⟩ := hsound.turns net (ahead_toList hname) hcounts
  generalize h.turns net name (h.group name).plcTags.toList = r at hturns
  obtain ⟨ended, h'⟩ := r
  cases ended with
  | false => exact ⟨tags', hturns⟩
  | true =>
    simp only
    split
    · exact ⟨tags', hturns⟩
    · exact ⟨tags', hturns.withLib (hturns.lib.flush net _) h'.thrown⟩

/-- A write keeps the handles shared out. -/
theorem write [Rtde.GodotVariant V] (hsound : h.Sound gateway tags) (net : Net σ) (float32 : UInt64)
    {w : WriteRequest V} (hname : h.groups.contains w.tagGroupName = true) :
    (h.write net float32 w).2.Sound gateway tags := by
  have hentry := handle_getD h w.tagGroupName w.tagName
  rw [S7Host.write]
  generalize ((h.group w.tagGroupName).plcTags[w.tagName]?).getD {} = tag at hentry
  have hstore : ∀ (lib : S7State σ) (dirty : Bool), OneHost gateway tags lib →
      (({ h with lib := lib } : S7Host V σ).withGroup w.tagGroupName
        ((h.group w.tagGroupName).putTag w.tagName { tag with dirty := dirty } 0)).Sound
        gateway tags := fun lib dirty hlib =>
    (hsound.withLib hlib h.thrown).stored hname rfl ⟨rfl, rfl⟩ hentry
  by_cases hpointer : 0 ≤ tag.tagPointer
  · simp only [if_pos hpointer]
    refine hstore _ _ ?_
    split
    · exact (hsound.lib.write _ _).send net _
    · exact hsound.lib.send net _
  · simp only [if_neg hpointer]
    exact hstore _ _ hsound.lib

/-- Destroying a list of handles. -/
theorem destroyed (entries : List (CStr × PlcTag)) {tags : List S7Tag} {lib : S7State σ}
    (hlib : OneHost gateway tags lib) :
    OneHost gateway
      (tags.filter fun tag => ∀ x ∈ entries, 16777216 + (tag.identifier : Int) ≠ x.2.tagPointer)
      (entries.foldl (fun lib (x : CStr × PlcTag) => (s7TagDestroy lib x.2.tagPointer).2) lib) := by
  induction entries generalizing tags lib with
  | nil =>
    rw [List.filter_eq_self.mpr]
    · exact hlib
    · exact fun tag _ => decide_eq_true fun x hx => (List.not_mem_nil hx).elim
  | cons x entries ih =>
    have hrest := ih (hlib.destroy x.2.tagPointer)
    rw [List.filter_filter] at hrest
    rw [List.foldl_cons]
    convert hrest using 2
    funext tag
    rw [← Bool.decide_and, decide_eq_decide, List.forall_mem_cons, and_comm]

/-- A clean-up gives back the handles of the group. -/
theorem cleanup (hsound : h.Sound gateway tags) {name : CStr}
    (hname : h.groups.contains name = true) : ∃ tags', (h.cleanup name).Sound gateway tags' := by
  have hlib := destroyed (h.group name).plcTags.toList hsound.lib
  have hgroups : (h.cleanup name).OfGateway gateway := hsound.groups_withGroup (hsound.group hname)
  have hhandle : ∀ name' tagName, (h.cleanup name).handle name' tagName =
      if name' = name then none else h.handle name' tagName := by
    intro name' tagName
    rw [S7Host.cleanup, handle_withGroup, Std.ExtTreeMap.getElem?_empty]
    rfl
  refine ⟨_, hsound.givenBack hgroups hhandle (fun tag => ?_) hlib⟩
  rw [List.mem_filter, decide_eq_true_iff]
  refine and_congr_right fun _ => ⟨fun hnone tagName hp => ?_, fun hnone x hx heq => ?_⟩
  · rw [handle_group, Option.bind_eq_some_iff] at hp
    obtain ⟨entry, hget, hentry⟩ := hp
    rw [PlcTag.handle] at hentry
    split at hentry
    · exact hnone (tagName, entry) (Std.ExtTreeMap.mem_toList_iff_getElem?_eq_some.mpr hget)
        (Option.some.inj hentry).symm
    · cases hentry
  · apply hnone x.1
    rw [handle_group, Std.ExtTreeMap.mem_toList_iff_getElem?_eq_some.mp hx, Option.bind_some,
      PlcTag.handle, ← heq, if_pos (by omega)]

/-- A new tag has no handle. -/
theorem registerTag (hsound : h.Sound gateway tags) {name : CStr}
    (hname : h.groups.contains name = true) {tagName : CStr}
    (hnew : (h.group name).has tagName = false) (ty : TagType) :
    (h.withGroup name ((h.group name).putTag tagName
      ((h.group name).protocol.newTag ty) 0)).Sound gateway tags := by
  rw [(hsound.group hname).1]
  refine hsound.stored hname rfl ⟨rfl, rfl⟩ ?_
  rw [TagGroup.has, (hsound.group hname).1, ← Bool.not_eq_true, ← Std.ExtTreeMap.mem_iff_contains,
    Std.ExtTreeMap.mem_iff_isSome_getElem?, Bool.not_eq_true, Option.isSome_eq_false_iff,
    Option.isNone_iff_eq_none] at hnew
  rw [handle_group, hnew]
  rfl

end S7Host.Sound

/-- The tag counter does not wrap in a poll. -/
def S7Host.Counts (h : S7Host V σ) : S7Op V σ → Prop
  | .poll name => h.lib.tagIdCounter + (h.group name).plcTags.size < 16777216
  | _ => True

instance (h : S7Host V σ) (op : S7Op V σ) : Decidable (h.Counts op) := by
  cases op <;> unfold S7Host.Counts <;> infer_instance

/-- Whatever happens, the handles stay shared out. -/
theorem sound_step [Rtde.GodotVariant V] (net : Net σ) {gateway : CStr} {h : S7Host V σ}
    (hsound : ∃ tags, h.Sound gateway tags) {op : S7Op V σ} (hcounts : h.Counts op) :
    ∃ tags, (h.step net op).Sound gateway tags := by
  obtain ⟨tags, hsound⟩ := hsound
  unfold S7Host.step
  split
  · exact ⟨tags, hsound⟩
  cases op with
  | registerTag name tagName ty =>
    simp only
    split
    · exact ⟨tags, hsound⟩
    · rename_i hnot
      rw [Bool.not_eq_true, Bool.or_eq_false_iff, Bool.not_eq_false'] at hnot
      exact ⟨tags, hsound.registerTag hnot.1 hnot.2 ty⟩
  | poll name =>
    simp only
    split
    · rename_i hname
      exact hsound.poll net hname hcounts
    · exact ⟨tags, hsound⟩
  | write float32 w =>
    simp only
    split
    · rename_i hname
      exact ⟨tags, hsound.write net float32 hname⟩
    · exact ⟨tags, hsound⟩
  | cleanup name =>
    simp only
    split
    · rename_i hname
      exact hsound.cleanup hname
    · exact ⟨tags, hsound⟩
  | polled i seen => exact ⟨tags, hsound.withLib (hsound.lib.polled i seen) h.thrown⟩

/-! ## Every run -/

/-- Registered groups of one gateway, before the library has been called. -/
structure S7Host.Fresh (gateway : CStr) (h : S7Host V σ) : Prop where
  groups : h.OfGateway gateway
  plcs : h.lib.s7Plcs = []
  plcIdCounter : h.lib.plcIdCounter = 0
  tagIdCounter : h.lib.tagIdCounter < 16777216
  handles : ∀ name tagName, h.handle name tagName = none

/-- Through each entry point the handle of a tag acts on the tag that its name denotes, on the
connection of the gateway; no two tags have one handle; and the connection has no other tags. -/
structure S7Host.Led (net : Net σ) (gateway : CStr) (h : S7Host V σ) : Prop where
  acts : ∀ {name tagName p}, h.handle name tagName = some p →
    ∃ tag, decodeTag tag.identifier tagName = .ok tag.registered ∧ Acts net h.lib p gateway tag
  apart : ∀ {name tagName name' tagName' p}, h.handle name tagName = some p →
    h.handle name' tagName' = some p → name = name' ∧ tagName = tagName'
  held : ∀ plc ∈ h.lib.s7Plcs, ∀ tag ∈ plc.tags,
    ∃ name tagName, h.handle name tagName = some (plc.handle tag)

/-- At first no handle is shared out. -/
theorem S7Host.Fresh.sound {gateway : CStr} {h : S7Host V σ} (hfresh : h.Fresh gateway) :
    h.Sound gateway [] where
  groups := hfresh.groups
  lib := ⟨hfresh.plcIdCounter, hfresh.tagIdCounter, .inl ⟨hfresh.plcs, rfl⟩,
    fun _ htag => (List.not_mem_nil htag).elim, List.nodup_nil⟩
  leads hp := by
    rw [hfresh.handles] at hp
    cases hp
  apart hp := by
    rw [hfresh.handles] at hp
    cases hp
  held _ htag := (List.not_mem_nil htag).elim

/-- Handles that are shared out lead to their tags. -/
theorem S7Host.Sound.led {gateway : CStr} {tags : List S7Tag} {h : S7Host V σ}
    (hsound : h.Sound gateway tags) (net : Net σ) : h.Led net gateway where
  acts hp := by
    obtain ⟨tag, htag, rfl, hdecode⟩ := hsound.leads hp
    obtain ⟨tag', rfl, hacts⟩ := hsound.lib.acts net htag
    exact ⟨tag', hdecode, hacts⟩
  apart hp hp' := hsound.apart hp hp'
  held plc hplc tag htag := by
    have hmem : tag.registered ∈ tags ∧ plc.identifier = 1 := by
      rcases hsound.lib.plcs with ⟨hnil, -⟩ | ⟨plc', hone, -, hid, rfl⟩
      · rw [hnil] at hplc
        cases hplc
      · rw [hone, List.mem_singleton] at hplc
        subst hplc
        exact ⟨List.mem_map_of_mem htag, hid⟩
    obtain ⟨name, tagName, hp⟩ := hsound.held _ hmem.1
    have hlt := Nat.lt_trans (hsound.lib.fresh _ hmem.1) hsound.lib.counter
    exact ⟨name, tagName, hp.trans (congrArg some (handle_eq hmem.2 hlt).symm)⟩

/-- In every run of any number of S7 groups of one gateway, whatever the socket answers and the
polling thread does in between. -/
theorem s7_tags_lead [Rtde.GodotVariant V] (net : Net σ) {gateway : CStr} {h : S7Host V σ}
    (hfresh : h.Fresh gateway) {ops : List (S7Op V σ)}
    (hcounts : Meets (S7Host.step net) S7Host.Counts h ops) :
    Along (S7Host.step net) (S7Host.Led net gateway) h ops :=
  (along_of_meets (S7Host.step net) (J := fun h => ∃ tags, h.Sound gateway tags)
    (fun _ _ hsound hcounts => sound_step net hsound hcounts) ⟨[], hfresh.sound⟩ hcounts).mono
    (S7Host.step net) fun _ ⟨_, hsound⟩ => hsound.led net

/-- Two groups on one controller. -/
def twoGroups : S7Host Bool σ :=
  (({} : S7Host Bool σ).withGroup ['g'] { protocol := .s7, gateway := ['P'] }).withGroup ['k']
    { protocol := .s7, gateway := ['P'] }

/-- The two groups have no handles. -/
theorem twoGroups_fresh : (twoGroups : S7Host Bool σ).Fresh ['P'] := by
  refine ⟨?_, rfl, rfl, Nat.zero_lt_succ _, fun name tagName => ?_⟩
  · intro name g hget
    rcases (Sweep.getElem?_insert_iff _ _ _ _ _).mp hget with ⟨-, rfl⟩ | ⟨-, hget⟩
    · exact ⟨rfl, rfl⟩
    · rcases (Sweep.getElem?_insert_iff _ _ _ _ _).mp hget with ⟨-, rfl⟩ | ⟨-, hget⟩
      · exact ⟨rfl, rfl⟩
      · rw [Std.ExtTreeMap.getElem?_empty] at hget
        cases hget
  · rw [twoGroups, handle_withGroup, handle_withGroup, Std.ExtTreeMap.getElem?_empty]
    split
    · rfl
    split
    · rfl
    · rfl

/-- A name that is refused, a write and a clean-up. -/
def twoGroupsOps : List (S7Op Bool Unit) :=
  [.registerTag ['g'] ['M', 'B', '0'] .uint8, .registerTag ['k'] ['X'] .uint8,
    .registerTag ['k'] ['Q', '4', '.', '1'] .bool, .poll ['g'], .poll ['k'],
    .write 0 ⟨0, ['g'], ['M', 'B', '0'], true⟩, .cleanup ['g']]

/-- Two groups with a tag that is refused, a write and a clean-up. -/
theorem s7_tags_lead_two_groups :
    Along (S7Host.step deadNet) (S7Host.Led deadNet ['P']) twoGroups twoGroupsOps :=
  s7_tags_lead deadNet twoGroups_fresh (by decide +kernel)

end OipComms.Backend
