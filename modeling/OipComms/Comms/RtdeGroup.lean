import OipComms.Comms.Registry
import OipComms.Rtde.Output

/-!
# An RTDE group in the registry

The registry leaves to the environment what a backend makes of a poll or a write. For a group whose
protocol is `rtde` the backend is modelled too: `Sees` relates the group to it, and registration,
poll and write on the two sides keep the relation.
-/

namespace OipComms.Comms

open Rtde (RtdeTagEntry RtdeTagGroupImpl GodotVariant)

universe u

variable {V : Type u}

/-- A tag as far as the registry knows it. -/
def entryTag (e : RtdeTagEntry) : Tag := { initialized := e.initialized }

/-- The group is what the registry knows of the RTDE group `r`. -/
structure TagGroup.Sees (g : TagGroup) (r : Rtde.TagGroup) : Prop where
  protocol : g.protocol = .rtde
  pollingInterval : g.pollingInterval = r.pollingInterval
  initCount : g.initCount = r.initCount
  hasError : g.hasError = r.hasError
  tags : g.tags = r.rtdeImpl.map fun impl => impl.tags.map fun _ e => entryTag e

/-! ## What the backend leaves -/

/-- The two groups have tags of the same names. -/
def SameNames (tags tags' : Rtde.TagMap) : Prop := ∀ name, name ∈ tags' ↔ name ∈ tags

theorem sameNames_reset (tags : Rtde.TagMap) : SameNames tags (Rtde.resetTags tags) :=
  fun _ => Std.ExtTreeMap.mem_map

theorem sameNames_mark {tags tags' : Rtde.TagMap} (h : SameNames tags tags') :
    SameNames tags (Rtde.markInitialized tags') :=
  fun name => Std.ExtTreeMap.mem_map.trans (h name)

/-- Resolving keeps the names. -/
theorem sameNames_resolve (r : Rtde.TagGroup)
    (inputOffsets outputOffsets : List (CStr × Nat × Rtde.FieldType)) :
    SameNames (r.rtdeImpl.getD {}).tags (Std.ExtTreeMap.ofList
      (Rtde.resolveAll inputOffsets outputOffsets (Rtde.sessionTags r)).2) := by
  intro name
  rw [Std.ExtTreeMap.mem_ofList, Rtde.resolveAll_names, Rtde.sessionTags,
    Std.ExtTreeMap.map_fst_toList_eq_keys, List.contains_iff_mem, Std.ExtTreeMap.mem_keys,
    Rtde.resetTags, Std.ExtTreeMap.mem_map]

/-- A session that is set up, or fails to be, keeps the names of the tags. -/
theorem initRtdeSession_frame (connect : CStr → Except String Rtde.Socket) (r : Rtde.TagGroup) :
    ∃ impl initCount, (Rtde.initRtdeSession connect r).2 =
        { r with rtdeImpl := some impl, initCount := initCount } ∧
      SameNames (r.rtdeImpl.getD {}).tags impl.tags := by
  have hreset := sameNames_reset (r.rtdeImpl.getD {}).tags
  have hresolve := sameNames_resolve r
  unfold Rtde.initRtdeSession
  simp only
  split
  · exact ⟨_, _, rfl, hreset⟩
  split
  · exact ⟨_, _, rfl, hreset⟩
  split
  · exact ⟨_, _, rfl, hreset⟩
  split
  · exact ⟨_, _, rfl, hreset⟩
  split
  · exact ⟨_, _, rfl, hreset⟩
  split
  · exact ⟨_, _, rfl, hresolve _ _⟩
  split
  · exact ⟨_, _, rfl, hresolve _ _⟩
  · exact ⟨_, _, rfl, sameNames_mark (hresolve _ _)⟩

/-- A session that has started has its object. -/
theorem rtdeImpl_of_started {r : Rtde.TagGroup} (h : Rtde.rtdeSessionStarted r = true) :
    ∃ impl, r.rtdeImpl = some impl := by
  unfold Rtde.rtdeSessionStarted at h
  cases himpl : r.rtdeImpl with
  | none =>
    rw [himpl] at h
    cases h
  | some impl => exact ⟨impl, rfl⟩

/-- A poll keeps the names of the tags. -/
theorem processRtdeTagGroup_frame (connect : CStr → Except String Rtde.Socket)
    (r : Rtde.TagGroup) :
    ∃ impl initCount hasError, Rtde.processRtdeTagGroup connect r =
        { r with rtdeImpl := some impl, initCount := initCount, hasError := hasError } ∧
      SameNames (r.rtdeImpl.getD {}).tags impl.tags := by
  have hsession : ∃ ok impl initCount,
      (if Rtde.rtdeSessionStarted r then (true, r) else Rtde.initRtdeSession connect r) =
        (ok, { r with rtdeImpl := some impl, initCount := initCount }) ∧
      SameNames (r.rtdeImpl.getD {}).tags impl.tags := by
    by_cases hstarted : Rtde.rtdeSessionStarted r = true
    · obtain ⟨impl, himpl⟩ := rtdeImpl_of_started hstarted
      rw [if_pos hstarted, himpl]
      exact ⟨true, impl, r.initCount, by rw [← himpl], fun _ => Iff.rfl⟩
    · obtain ⟨impl, initCount, hinit, hnames⟩ := initRtdeSession_frame connect r
      rw [if_neg hstarted]
      exact ⟨_, impl, initCount, Prod.ext rfl hinit, hnames⟩
  obtain ⟨ok, impl, initCount, hsession, hnames⟩ := hsession
  unfold Rtde.processRtdeTagGroup
  rw [hsession]
  cases ok with
  | false => exact ⟨impl, initCount, true, rfl, hnames⟩
  | true =>
    simp only [Bool.not_true, Bool.false_eq_true, if_false]
    split
    · exact ⟨_, initCount, true, rfl, hnames⟩
    · exact ⟨_, initCount, r.hasError, rfl, hnames⟩
    · split
      · exact ⟨_, initCount, r.hasError, rfl, hnames⟩
      · exact ⟨_, initCount, r.hasError, rfl, hnames⟩

/-- A write keeps the tags. -/
theorem rtdeTagSet_frame {W : Type} [GodotVariant W] (tagPath : CStr) (value : W)
    (r : Rtde.TagGroup) :
    ∃ rtdeImpl, Rtde.rtdeTagSet tagPath value r = { r with rtdeImpl := rtdeImpl } ∧
      rtdeImpl.map RtdeTagGroupImpl.tags = r.rtdeImpl.map RtdeTagGroupImpl.tags := by
  unfold Rtde.rtdeTagSet
  cases hpackage : Rtde.inputPackage r tagPath value with
  | none => exact ⟨r.rtdeImpl, rfl, rfl⟩
  | some payload =>
    have hstarted : Rtde.rtdeSessionStarted r = true := by
      cases hstarted : Rtde.rtdeSessionStarted r with
      | true => rfl
      | false =>
        simp only [Rtde.inputPackage, hstarted, Bool.not_false, if_true] at hpackage
        cases hpackage
    obtain ⟨impl, himpl⟩ := rtdeImpl_of_started hstarted
    refine ⟨_, rfl, ?_⟩
    rw [himpl]
    rfl

/-- Tags of the same names are the others with each value looked up. -/
theorem map_of_names {tags t : TagMap} (h : ∀ name, name ∈ t ↔ name ∈ tags) :
    tags.map (fun name _ => (t[name]?).getD {}) = t := by
  refine Std.ExtTreeMap.ext_getElem? fun name => ?_
  rw [Std.ExtTreeMap.getElem?_map]
  cases htag : t[name]? with
  | none =>
    have hnot : name ∉ tags := by
      rw [← h name, Std.ExtTreeMap.mem_iff_isSome_getElem?, htag]
      exact Bool.false_ne_true
    rw [Std.ExtTreeMap.getElem?_eq_none hnot]
    rfl
  | some tag =>
    have hmem : name ∈ tags := by
      rw [← h name, Std.ExtTreeMap.mem_iff_isSome_getElem?, htag]
      rfl
    rw [Std.ExtTreeMap.getElem?_eq_some_getElem hmem]
    rfl

/-- The same of the tags of an RTDE group. -/
theorem map_of_sameNames {tags tags' : Rtde.TagMap} (h : SameNames tags tags') :
    (tags.map fun _ e => entryTag e).map (fun name _ => (tags'[name]?.map entryTag).getD {}) =
      tags'.map fun _ e => entryTag e := by
  have hsame : ∀ name, name ∈ tags'.map (fun _ e => entryTag e) ↔
      name ∈ tags.map fun _ e => entryTag e := by
    intro name
    rw [Std.ExtTreeMap.mem_map, Std.ExtTreeMap.mem_map]
    exact h name
  have hnames := map_of_names hsame
  simp only [Std.ExtTreeMap.getElem?_map] at hnames
  exact hnames

/-! ## The two sides -/

/-- A group just registered. -/
theorem sees_registerTagGroup (s : State V) {name : CStr} (hname : name ≠ [])
    (pollingInterval : Int) (gateway : CStr) :
    ∃ g, (s.registerTagGroup name pollingInterval .rtde).tagGroups[name]? = some g ∧
      g.Sees { pollingInterval := pollingInterval, gateway := gateway } := by
  rw [State.registerTagGroup, if_neg hname]
  exact ⟨_, Std.ExtTreeMap.getElem?_insert_self, rfl, rfl, rfl, rfl, rfl⟩

section
variable {g : TagGroup} {r : Rtde.TagGroup}

/-- The registry knows the names of the tags. -/
theorem TagGroup.Sees.has (h : g.Sees r) (tagName : CStr) :
    g.has tagName = ((r.rtdeImpl.bind fun impl => impl.tags[tagName]?).isSome) := by
  rw [TagGroup.has, h.tags]
  cases r.rtdeImpl with
  | none => rfl
  | some impl =>
    simp only [Option.map_some, Option.any_some, Option.bind_some, Std.ExtTreeMap.contains_map,
      Std.ExtTreeMap.isSome_getElem?_eq_contains]

/-- `register_tag` on the two sides. -/
theorem TagGroup.Sees.register (h : g.Sees r) {tagName : CStr} (hname : tagName ≠ [])
    (hnew : g.has tagName = false) (ty : TagType) :
    (g.register tagName ty).1 = (Rtde.registerTag tagName r).1 ∧
      (g.register tagName ty).2.Sees (Rtde.registerTag tagName r).2 := by
  rw [h.has, Option.isSome_eq_false_iff, Option.isNone_iff_eq_none] at hnew
  have htags : g.tags.getD ∅ =
      (r.rtdeImpl.getD {}).tags.map fun _ e => entryTag e := by
    rw [h.tags]
    cases r.rtdeImpl with
    | none => rfl
    | some impl => rfl
  unfold TagGroup.register Rtde.registerTag
  rw [if_neg hname, hnew, h.protocol]
  cases hparse : Rtde.parseTagIndex tagName with
  | none =>
    simp only [Protocol.accepts, hparse, Option.isSome_none, Bool.false_eq_true, if_false, if_true,
      true_and]
    refine ⟨rfl, h.pollingInterval, h.initCount, h.hasError, ?_⟩
    simp only [htags, Option.map_some]
  | some p =>
    obtain ⟨base, idx, hasBrackets⟩ := p
    simp only [Protocol.accepts, hparse, Option.isSome_some, if_true, true_and]
    refine ⟨h.protocol, h.pollingInterval, h.initCount, h.hasError, ?_⟩
    simp only [TagGroup.insertTag, htags, Option.map_some, Option.some.injEq]
    ext name
    rw [Std.ExtTreeMap.getElem?_insert, Std.ExtTreeMap.getElem?_map, Std.ExtTreeMap.getElem?_map,
      Std.ExtTreeMap.getElem?_insert]
    split
    · rfl
    · rfl

/-- A tag that is there stays as it is. -/
theorem TagGroup.Sees.registered (h : g.Sees r) {tagName : CStr} (hname : tagName ≠ [])
    (hthere : g.has tagName = true) : Rtde.registerTag tagName r = (true, r) := by
  rw [h.has, Option.isSome_iff_exists] at hthere
  obtain ⟨e, he⟩ := hthere
  rw [Rtde.registerTag, if_neg hname, he]

/-- `process_tag_group` on the two sides: the poll the registry is told of is the one the backend
makes, and it stops nothing. -/
theorem TagGroup.Sees.poll (h : g.Sees r) (connect : CStr → Except String Rtde.Socket) :
    ∃ o : Polled, (g.poll o).Sees (Rtde.processTagGroup connect r) ∧ g.pollStops o = false := by
  obtain ⟨impl, initCount, hasError, hprocess, hnames⟩ := processRtdeTagGroup_frame connect r
  refine ⟨{ tag := fun name _ => (impl.tags[name]?.map entryTag).getD {}, initCount := initCount
            initCountEmitted := g.initCountEmitted, hasError := hasError
            needsSessionRecoveredSignal := g.needsSessionRecoveredSignal
            creates := true, stops := false }, ?_, ?_⟩
  · unfold TagGroup.poll Rtde.processTagGroup
    rw [h.hasError]
    split
    · exact h
    · rw [hprocess]
      refine ⟨h.protocol, h.pollingInterval, rfl, rfl, ?_⟩
      simp only [h.tags, Option.map_some]
      cases himpl : r.rtdeImpl with
      | none =>
        rw [himpl] at hnames
        exact congrArg some (map_of_sameNames hnames)
      | some impl₀ =>
        rw [himpl] at hnames
        exact congrArg some (map_of_sameNames hnames)
  · simp only [TagGroup.pollStops, Bool.and_false]

/-- `rtde_tag_set` on the two sides: the registry does not see it. -/
theorem TagGroup.Sees.handed (h : g.Sees r) {W : Type} [GodotVariant W] (tagName : CStr)
    (value : W) (o : Handed) : (g.handed tagName o).Sees (Rtde.rtdeTagSet tagName value r) := by
  obtain ⟨rtdeImpl, hset, hsame⟩ := rtdeTagSet_frame tagName value r
  have hgroup : g.handed tagName o = g := by
    rw [TagGroup.handed, h.protocol]
  rw [hgroup, hset]
  refine ⟨h.protocol, h.pollingInterval, h.initCount, h.hasError, ?_⟩
  have htags := congrArg (Option.map fun tags : Rtde.TagMap => tags.map fun _ e => entryTag e) hsame
  rw [Option.map_map, Option.map_map] at htags
  exact h.tags.trans htags.symm

end

end OipComms.Comms
