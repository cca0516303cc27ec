import OipComms.Lib.Sweep
import OipComms.Rtde.Output

/-!
# The count of an RTDE group

`init_count` is the number of the initialised tags. A session that is set up adds all tags to it and
looks at no flag; the sum is right because a group that has no error and no session has no
initialised tag. A session ends only with an error, and only a clean-up takes the error back.
-/

namespace OipComms.Rtde

open Sweep

/-- The tags of a group. -/
def TagGroup.tags (g : TagGroup) : TagMap := (g.rtdeImpl.getD {}).tags

/-- No tag of the map is initialised. -/
def NoneInitialized (tags : TagMap) : Prop :=
  ∀ (name : CStr) (e : RtdeTagEntry), tags[name]? = some e → e.initialized = false

/-- `init_count` is right, and a group without error that is not served has no initialised tag. -/
structure TagGroup.Counted (g : TagGroup) : Prop where
  count : g.initCount = count RtdeTagEntry.initialized g.tags
  unserved : g.hasError = false → rtdeSessionStarted g = false → NoneInitialized g.tags

/-- Where no tag is initialised, the count is zero. -/
theorem count_of_none {tags : TagMap} (h : NoneInitialized tags) :
    count RtdeTagEntry.initialized tags = 0 := by
  rw [count_eq_total]
  refine total_eq_zero _ fun name e he => ?_
  rw [weight, h name e he]
  rfl

/-- Tags that are all marked are counted by their number. -/
theorem count_markInitialized (tags : TagMap) :
    count RtdeTagEntry.initialized (markInitialized tags) = (markInitialized tags).size := by
  rw [count, ← Std.ExtTreeMap.length_toList, markInitialized, Std.ExtTreeMap.toList_map]
  refine List.countP_eq_length.mpr fun x hx => ?_
  obtain ⟨y, -, rfl⟩ := List.mem_map.mp hx
  rfl

/-! ## A session is set up -/

/-- A reset leaves no tag initialised. -/
theorem noneInitialized_reset (tags : TagMap) : NoneInitialized (resetTags tags) := by
  intro name e he
  rw [resetTags, Std.ExtTreeMap.getElem?_map] at he
  obtain ⟨e', -, rfl⟩ := Option.map_eq_some_iff.mp he
  rfl

/-- A field that is resolved leaves the flag of its tag. -/
theorem resolve_initialized (entry : RtdeTagEntry) (off : Nat) (ft : FieldType) :
    (entry.resolve off ft).2.initialized = entry.initialized := by
  unfold RtdeTagEntry.resolve
  simp only
  split
  · split <;> rfl
  · split <;> rfl

/-- Resolving initialises no tag. -/
theorem resolveAll_initialized (inputOffsets outputOffsets : List (CStr × Nat × FieldType))
    {tags : List (CStr × RtdeTagEntry)} (h : ∀ x ∈ tags, x.2.initialized = false) :
    ∀ x ∈ (resolveAll inputOffsets outputOffsets tags).2, x.2.initialized = false := by
  induction tags with
  | nil => exact h
  | cons x rest ih =>
    obtain ⟨tagName, entry⟩ := x
    have hfirst : entry.initialized = false := h (tagName, entry) List.mem_cons_self
    have hrest : ∀ y ∈ rest, y.2.initialized = false :=
      fun y hy => h y (List.mem_cons_of_mem _ hy)
    rw [resolveAll]
    split
    · exact h
    · rename_i off ft _
      have hresolved := (resolve_initialized entry off ft).trans hfirst
      cases hok : entry.resolve off ft with
      | mk ok entry' =>
        rw [hok] at hresolved
        cases ok with
        | false => exact List.forall_mem_cons.mpr ⟨hresolved, hrest⟩
        | true => exact List.forall_mem_cons.mpr ⟨hresolved, ih hrest⟩

/-- Tags that are resolved are not initialised by that. -/
theorem noneInitialized_resolve (g : TagGroup)
    (inputOffsets outputOffsets : List (CStr × Nat × FieldType)) :
    NoneInitialized
      (Std.ExtTreeMap.ofList (resolveAll inputOffsets outputOffsets (sessionTags g)).2) := by
  intro name e he
  refine resolveAll_initialized inputOffsets outputOffsets ?_ (name, e)
    (mem_of_getElem?_ofList (resolveAll_distinct inputOffsets outputOffsets g) he)
  intro x hx
  exact noneInitialized_reset _ x.1 x.2 (Std.ExtTreeMap.mem_toList_iff_getElem?_eq_some.mp hx)

/-- A session that is not set up leaves no tag initialised, and the counts as they were. -/
theorem initRtdeSession_eq_false {connect : CStr → Except String Socket} {g g' : TagGroup}
    (h : initRtdeSession connect g = (false, g')) :
    ∃ impl, g' = { g with rtdeImpl := some impl } ∧ NoneInitialized impl.tags := by
  have hreset := noneInitialized_reset (g.rtdeImpl.getD {}).tags
  have hresolve := noneInitialized_resolve g
  revert h
  unfold initRtdeSession
  simp only
  split
  · rintro ⟨⟩
    exact ⟨_, rfl, hreset⟩
  split
  · rintro ⟨⟩
    exact ⟨_, rfl, hreset⟩
  split
  · rintro ⟨⟩
    exact ⟨_, rfl, hreset⟩
  split
  · rintro ⟨⟩
    exact ⟨_, rfl, hreset⟩
  split
  · rintro ⟨⟩
    exact ⟨_, rfl, hreset⟩
  split
  · rintro ⟨⟩
    refine ⟨_, rfl, ?_⟩
    split <;> exact hresolve _ _
  split
  · rintro ⟨⟩
    refine ⟨_, rfl, ?_⟩
    split <;> exact hresolve _ _
  · rintro ⟨⟩

/-- A session starts with all its tags initialised. -/
theorem Handshake.all_initialized {connect : CStr → Except String Socket} {g : TagGroup}
    (hs : Handshake connect g) : ∀ (name : CStr) (e : RtdeTagEntry),
      hs.impl.tags[name]? = some e → e.initialized = true := by
  intro name e he
  rw [Handshake.impl, markInitialized, Std.ExtTreeMap.getElem?_map] at he
  obtain ⟨e', -, rfl⟩ := Option.map_eq_some_iff.mp he
  rfl

/-! ## Sessions -/

section
variable (connect : CStr → Except String Socket) {g : TagGroup}

/-- What a poll of a session that runs leaves: it sets an error, or the session still runs; the
tags and the count are as they were. -/
theorem pollSession_spec {impl : RtdeTagGroupImpl} (himpl : g.rtdeImpl = some impl)
    (hstarted : impl.started = true) (hopen : (impl.client.getD {}).socket.isSome = true) :
    ∃ impl' hasError,
      processRtdeTagGroup connect g = { g with rtdeImpl := some impl', hasError := hasError } ∧
      impl'.tags = impl.tags ∧
      (hasError = true ∨ hasError = g.hasError ∧
        rtdeSessionStarted (processRtdeTagGroup connect g) = true) := by
  have hsession : rtdeSessionStarted g = true := by
    cases hclient : impl.client with
    | none =>
      rw [hclient] at hopen
      cases hopen
    | some c =>
      rw [hclient] at hopen
      have hopen : c.socket.isSome = true := hopen
      simp only [rtdeSessionStarted, himpl, hclient, Option.any_some, Client.isOpen, hopen,
        hstarted, Bool.and_self]
  obtain ⟨s, hsocket⟩ := Option.isSome_iff_exists.mp hopen
  have hstill : ∀ {r : Extracted} {c : Client}, (impl.client.getD {}).poll = (r, c) → r ≠ .error →
      c.socket.isSome = true := by
    intro r c hpoll hr
    rw [Client.poll, hsocket] at hpoll
    exact pollLoop_isOpen hopen hpoll hr
  unfold processRtdeTagGroup
  simp only [hsession, if_true, Bool.not_true, Bool.false_eq_true, if_false, himpl]
  rcases hpoll : (impl.client.getD {}).poll with ⟨_ | _ | ⟨recipeId, payload⟩, c⟩
  · exact ⟨_, true, rfl, rfl, .inl rfl⟩
  · refine ⟨_, g.hasError, rfl, rfl, .inr ⟨rfl, ?_⟩⟩
    simp only [rtdeSessionStarted, Option.any_some, Client.isOpen,
      hstill hpoll Extracted.noConfusion, hstarted, Bool.and_self]
  · simp only
    split
    · refine ⟨_, g.hasError, rfl, rfl, .inr ⟨rfl, ?_⟩⟩
      simp only [rtdeSessionStarted, Option.any_some, Client.isOpen,
        hstill hpoll Extracted.noConfusion, hstarted, Bool.and_self]
    · refine ⟨_, g.hasError, rfl, rfl, .inr ⟨rfl, ?_⟩⟩
      simp only [rtdeSessionStarted, Option.any_some, Client.isOpen,
        hstill hpoll Extracted.noConfusion, hstarted, Bool.and_self]

/-- What makes a session run. -/
theorem sessionStarted_iff {g : TagGroup} : rtdeSessionStarted g = true ↔
    ∃ impl, g.rtdeImpl = some impl ∧ impl.started = true ∧
      (impl.client.getD {}).socket.isSome = true := by
  unfold rtdeSessionStarted
  cases g.rtdeImpl with
  | none => simp only [Bool.false_eq_true, reduceCtorEq, false_and, exists_false]
  | some impl =>
    simp only [Bool.and_eq_true, Option.some.injEq, exists_eq_left']
    rw [and_comm]
    refine and_congr_right fun _ => ?_
    cases impl.client with
    | none => simp only [Option.any_none, Bool.false_eq_true, Option.getD_none, Option.isSome_none]
    | some c => simp only [Option.any_some, Client.isOpen, Option.getD_some]

/-- A poll of a group whose session does not run sets one up, which then is polled, or sets an
error. -/
theorem processRtdeTagGroup_unstarted (hsession : rtdeSessionStarted g = false) :
    (∃ impl, processRtdeTagGroup connect g = { g with rtdeImpl := some impl, hasError := true } ∧
      NoneInitialized impl.tags) ∨
    ∃ hs : Handshake connect g, processRtdeTagGroup connect g =
      processRtdeTagGroup connect hs.group ∧ rtdeSessionStarted hs.group = true := by
  rcases hinit : initRtdeSession connect g with ⟨_ | _, g'⟩
  · obtain ⟨impl, rfl, hnone⟩ := initRtdeSession_eq_false hinit
    refine .inl ⟨impl, ?_, hnone⟩
    unfold processRtdeTagGroup
    simp only [hsession, Bool.false_eq_true, if_false, hinit, Bool.not_false, if_true]
  · obtain ⟨hs, rfl⟩ := initRtdeSession_eq_true hinit
    have hstarted : rtdeSessionStarted hs.group = true :=
      sessionStarted_iff.mpr ⟨hs.impl, rfl, rfl, (start_true hs.started).2⟩
    refine .inr ⟨hs, ?_, hstarted⟩
    unfold processRtdeTagGroup
    simp only [hsession, Bool.false_eq_true, if_false, hinit, hstarted, if_true]

end

/-! ## What keeps the count -/

section
variable {g : TagGroup}

/-- A group without an initialised tag counts none. -/
theorem counted_of_none {impl : RtdeTagGroupImpl} {initCount : Nat} (hcount : initCount = 0)
    (h : NoneInitialized impl.tags) (hasError : Bool) :
    TagGroup.Counted { g with
      rtdeImpl := some impl, initCount := initCount, hasError := hasError } :=
  ⟨hcount.trans (count_of_none h).symm, fun _ _ => h⟩

/-- A group that runs, or has an error, with the tags and the count of one that is right. -/
theorem TagGroup.Counted.served {g' : TagGroup} (h : g.Counted)
    (hcount : g'.initCount = g.initCount) (htags : g'.tags = g.tags)
    (hserved : g'.hasError = true ∨ rtdeSessionStarted g' = true) : g'.Counted := by
  refine ⟨?_, fun herror hsession => ?_⟩
  · rw [hcount, htags]
    exact h.count
  · rw [herror, hsession] at hserved
    exact hserved.elim (fun hno => nomatch hno) (fun hno => nomatch hno)

/-- A session that starts counts all its tags. -/
theorem counted_group {connect : CStr → Except String Socket} (hs : Handshake connect g)
    (hcount : g.initCount = 0) (hsession : rtdeSessionStarted hs.group = true) :
    hs.group.Counted := by
  refine ⟨?_, fun _ hno => ?_⟩
  · show g.initCount + hs.impl.tags.size = _
    rw [hcount, Nat.zero_add]
    exact (count_markInitialized _).symm
  · rw [hsession] at hno
    cases hno

/-- A poll keeps the count. -/
theorem TagGroup.Counted.process (h : g.Counted) (herror : g.hasError = false)
    (connect : CStr → Except String Socket) : (processRtdeTagGroup connect g).Counted := by
  have hrunning : ∀ {g : TagGroup}, g.Counted → rtdeSessionStarted g = true →
      (processRtdeTagGroup connect g).Counted := by
    intro g h hsession
    obtain ⟨impl, himpl, hstarted, hopen⟩ := sessionStarted_iff.mp hsession
    obtain ⟨impl', hasError, hpolled, htags, hserved⟩ :=
      pollSession_spec connect himpl hstarted hopen
    have htags' : (processRtdeTagGroup connect g).tags = g.tags := by
      rw [hpolled, TagGroup.tags, TagGroup.tags, himpl]
      exact htags
    refine h.served ?_ htags' ?_
    · rw [hpolled]
    · rw [hpolled] at hserved ⊢
      exact hserved.imp id And.right
  cases hsession : rtdeSessionStarted g with
  | true => exact hrunning h hsession
  | false =>
    have hnone := h.unserved herror hsession
    have hcount : g.initCount = 0 := h.count.trans (count_of_none hnone)
    rcases processRtdeTagGroup_unstarted connect hsession with
      ⟨impl, hfailed, himpl⟩ | ⟨hs, hpolled, hstarted⟩
    · rw [hfailed]
      exact counted_of_none hcount himpl true
    · rw [hpolled]
      exact hrunning (counted_group hs hcount hstarted) hstarted

/-- A registration keeps the count: the new tag is not initialised. -/
theorem TagGroup.Counted.registerTag (h : g.Counted) (tagName : CStr) :
    (Rtde.registerTag tagName g).2.Counted := by
  unfold Rtde.registerTag
  by_cases hname : tagName = []
  · rw [if_pos hname]
    exact h
  rw [if_neg hname]
  cases hexists : g.rtdeImpl.bind fun impl => impl.tags[tagName]? with
  | some e => exact h
  | none =>
    have hnew : g.tags[tagName]? = none := by
      rw [TagGroup.tags]
      cases himpl : g.rtdeImpl with
      | none => exact Std.ExtTreeMap.getElem?_empty
      | some impl =>
        rw [himpl] at hexists
        exact hexists
    have hsession : ∀ tags, rtdeSessionStarted
        { g with rtdeImpl := some { g.rtdeImpl.getD {} with tags := tags } } =
          rtdeSessionStarted g := by
      intro tags
      unfold rtdeSessionStarted
      cases g.rtdeImpl with
      | none => rfl
      | some impl => rfl
    simp only
    cases parseTagIndex tagName with
    | none => exact ⟨h.count, fun herror hno => h.unserved herror ((hsession g.tags).symm.trans hno)⟩
    | some parsed =>
      obtain ⟨base, idx, hasBrackets⟩ := parsed
      constructor
      · show g.initCount = Sweep.count _ (g.tags.insert tagName _)
        rw [count_eq_total, total_insert_new _ hnew, ← count_eq_total, h.count]
        simp only [weight, Bool.false_eq_true, if_false, Nat.zero_add]
      · intro herror hno name e he
        have he : (g.tags.insert tagName _)[name]? = some e := he
        rcases (getElem?_insert_iff _ _ _ _ _).mp he with ⟨-, rfl⟩ | ⟨-, he⟩
        · rfl
        · exact h.unserved herror ((hsession _).symm.trans hno) name e he

/-- A write keeps the count: the session runs on. -/
theorem TagGroup.Counted.rtdeTagSet {V : Type} [GodotVariant V] (h : g.Counted) (tagPath : CStr)
    (value : V) : (Rtde.rtdeTagSet tagPath value g).Counted := by
  unfold Rtde.rtdeTagSet
  cases hpackage : inputPackage g tagPath value with
  | none => exact h
  | some payload =>
    have hsession : rtdeSessionStarted g = true := by
      cases hsession : rtdeSessionStarted g with
      | true => rfl
      | false =>
        simp only [inputPackage, hsession, Bool.not_false, if_true] at hpackage
        cases hpackage
    obtain ⟨impl, himpl, hstarted, hopen⟩ := sessionStarted_iff.mp hsession
    refine h.served rfl ?_ (.inr (sessionStarted_iff.mpr ⟨_, rfl, ?_, ?_⟩))
    · rw [TagGroup.tags, TagGroup.tags, himpl]
      rfl
    · rw [himpl]
      exact hstarted
    · simp only [himpl, Option.getD_some]
      exact (sendFrame_socket _ _ _).trans hopen

end

end OipComms.Rtde
