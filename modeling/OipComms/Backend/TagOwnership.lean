import OipComms.Backend.Programs

/-!
# Whose the tags of a soft PLC group are

An output of the program is the engine's, any other tag the parts'. The two flags of a tag say which,
and are set when a program is compiled, in the tags that are there, and never set back: a tag that is
registered later has none, and one that was of another program keeps its own.
-/

namespace OipComms.Backend

open Comms (TagType)
open Run Sweep

variable {V : Type}

/-- The inputs and the outputs of a program, by its source. -/
abbrev ProgramIo := CStr → List CStr × List CStr

section
variable (io : ProgramIo)

/-- The flags of the tags are those of the program the object was given. -/
def SoftPlcTagGroupImpl.Owned (impl : SoftPlcTagGroupImpl V) : Prop :=
  ∀ (tagName : CStr) (tag : SoftPlcTagEntry V), impl.tags[tagName]? = some tag →
    (tag.isInput = true ↔ tagName ∈ (io impl.programSource).1) ∧
      (tag.isOutput = true ↔ tagName ∈ (io impl.programSource).2)

/-- The flags are those of the program that runs, if there is one. -/
def OwnedObject : Option (SoftPlcTagGroupImpl V) → Prop
  | none => True
  | some impl => impl.initialized = true → impl.Owned io

/-- What a soft PLC group is to keep. -/
def TagGroup.Owned (g : TagGroup V) : Prop := g.protocol = .softPlc → OwnedObject io g.softPlcImpl

/-- What happens to the object fits the flags: a tag that is registered while a program runs is none
of it, and a program that is compiled has every tag that has a flag already. -/
def FlagsFitObject (g : TagGroup V) (impl : SoftPlcTagGroupImpl V) : GroupOp V → Prop
  | .registerTag tagName _ =>
    impl.initialized = true → g.has tagName = false →
      tagName ∉ (io impl.programSource).1 ∧ tagName ∉ (io impl.programSource).2
  | .poll env =>
    g.hasError = false → impl.creates env.softPlc g.gateway = true →
      0 < env.softPlc.create impl.programSource →
        ∀ (tagName : CStr) (tag : SoftPlcTagEntry V), impl.tags[tagName]? = some tag →
          (tag.isInput = true → tagName ∈ (io impl.programSource).1) ∧
            (tag.isOutput = true → tagName ∈ (io impl.programSource).2)
  | .write _ _ | .read _ _ | .message _ _ | .setSoftPlcProgram _ | .setSoftPlcWatchEnabled _
  | .frame _ _ | .cleanup => True

def TagGroup.FlagsFit (g : TagGroup V) (op : GroupOp V) : Prop :=
  g.protocol = .softPlc → ∀ impl, g.softPlcImpl = some impl → FlagsFitObject io g impl op

/-- The engine says of every program what it has. -/
def ListsIo (env : SoftPlcEnv V) : Prop :=
  ∀ source, 0 < env.create source → env.metaData (env.create source) = some (io source)

end

/-! ## Tags -/

section
variable {io : ProgramIo}

/-- What has the flags of tags that are right, is right. -/
theorem SoftPlcTagGroupImpl.Owned.same {impl impl' : SoftPlcTagGroupImpl V} (h : impl.Owned io)
    (hsource : impl'.programSource = impl.programSource)
    (htags : ∀ (tagName : CStr) (tag' : SoftPlcTagEntry V), impl'.tags[tagName]? = some tag' →
      ∃ tag, impl.tags[tagName]? = some tag ∧ tag'.isInput = tag.isInput ∧
        tag'.isOutput = tag.isOutput) : impl'.Owned io := by
  intro tagName tag' hget
  obtain ⟨tag, hget, hinput, houtput⟩ := htags tagName tag' hget
  rw [hsource, hinput, houtput]
  exact h tagName tag hget

/-- A scan leaves the flags as they are. -/
theorem getElem?_scan (env : SoftPlcEnv V) (pollingInterval : Int) (impl : SoftPlcTagGroupImpl V)
    (tagName : CStr) :
    ∃ store : SoftPlcTagEntry V → SoftPlcTagEntry V,
      (∀ tag, (store tag).isInput = tag.isInput ∧ (store tag).isOutput = tag.isOutput) ∧
      (impl.scan env pollingInterval).1.tags[tagName]? = impl.tags[tagName]?.map store := by
  refine ⟨_, fun tag => ?_, Std.ExtTreeMap.getElem?_map⟩
  split
  · exact ⟨rfl, rfl⟩
  · exact ⟨rfl, rfl⟩

/-- The flags a program adds. -/
theorem getElem?_marked (impl : SoftPlcTagGroupImpl V) (ins outs : List CStr) (tagName : CStr) :
    (impl.marked (some (ins, outs))).tags[tagName]? = impl.tags[tagName]?.map fun tag =>
      { tag with
        isInput := tag.isInput || tagName ∈ ins, isOutput := tag.isOutput || tagName ∈ outs } := by
  simp only [SoftPlcTagGroupImpl.marked, markTags, Std.ExtTreeMap.getElem?_map, Option.map_map]
  refine congrFun (congrArg Option.map (funext fun tag => ?_)) _
  simp only [Function.comp_apply]
  by_cases hin : tagName ∈ ins
  · by_cases hout : tagName ∈ outs
    · simp only [hin, hout, if_true, decide_true, Bool.or_true]
    · simp only [hin, hout, if_true, if_false, decide_true, decide_false, Bool.or_true,
        Bool.or_false]
  · by_cases hout : tagName ∈ outs
    · simp only [hin, hout, if_true, if_false, decide_true, decide_false, Bool.or_true,
        Bool.or_false]
    · simp only [hin, hout, if_false, decide_false, Bool.or_false]

/-- The flags of a program just compiled. -/
theorem getElem?_running {env : SoftPlcEnv V} (hlists : ListsIo io env)
    {impl : SoftPlcTagGroupImpl V} (hcreated : 0 < env.create impl.programSource)
    (tagName : CStr) :
    (impl.running env).tags[tagName]? = impl.tags[tagName]?.map fun tag =>
      { tag with
        isInput := tag.isInput || tagName ∈ (io impl.programSource).1
        isOutput := tag.isOutput || tagName ∈ (io impl.programSource).2 } := by
  have htags : (impl.running env).tags = (impl.marked (some (io impl.programSource))).tags := by
    rw [running_eq, hlists _ hcreated]
  rw [htags, getElem?_marked]

/-! ## What happens to a group -/

/-- A tag that is registered while a program runs has no flags. -/
theorem owned_insert_iff {impl : SoftPlcTagGroupImpl V} (h : impl.Owned io) {tagName : CStr}
    (ty : TagType) :
    ({ impl with tags := impl.tags.insert tagName { dataType := ty } } :
        SoftPlcTagGroupImpl V).Owned io ↔
      tagName ∉ (io impl.programSource).1 ∧ tagName ∉ (io impl.programSource).2 := by
  constructor
  · intro hnew
    obtain ⟨hinput, houtput⟩ := hnew tagName { dataType := ty } Std.ExtTreeMap.getElem?_insert_self
    exact ⟨fun hmem => Bool.false_ne_true (hinput.mpr hmem),
      fun hmem => Bool.false_ne_true (houtput.mpr hmem)⟩
  · rintro ⟨hin, hout⟩ name tag hget
    rcases (getElem?_insert_iff _ _ _ _ _).mp hget with ⟨rfl, rfl⟩ | ⟨-, hget⟩
    · exact ⟨iff_of_false Bool.false_ne_true hin, iff_of_false Bool.false_ne_true hout⟩
    · exact h name tag hget

/-- A program that was compiled has the flags of its tags, if it has all that were set before. -/
theorem owned_running_iff {env : SoftPlcEnv V} (hlists : ListsIo io env) (pollingInterval : Int)
    {impl : SoftPlcTagGroupImpl V} (hcreated : 0 < env.create impl.programSource) :
    ((impl.running env).scan env pollingInterval).1.Owned io ↔
      ∀ (tagName : CStr) (tag : SoftPlcTagEntry V), impl.tags[tagName]? = some tag →
        (tag.isInput = true → tagName ∈ (io impl.programSource).1) ∧
          (tag.isOutput = true → tagName ∈ (io impl.programSource).2) := by
  have hsource : ((impl.running env).scan env pollingInterval).1.programSource =
      impl.programSource := by
    rw [running_eq]
    rfl
  have hget : ∀ tagName, ∃ store : SoftPlcTagEntry V → SoftPlcTagEntry V,
      (∀ tag, (store tag).isInput = tag.isInput ∧ (store tag).isOutput = tag.isOutput) ∧
      ((impl.running env).scan env pollingInterval).1.tags[tagName]? =
        impl.tags[tagName]?.map fun tag : SoftPlcTagEntry V => store { tag with
          isInput := tag.isInput || tagName ∈ (io impl.programSource).1
          isOutput := tag.isOutput || tagName ∈ (io impl.programSource).2 } := by
    intro tagName
    obtain ⟨store, hstore, hscan⟩ := getElem?_scan env pollingInterval (impl.running env) tagName
    refine ⟨store, hstore, ?_⟩
    rw [hscan, getElem?_running hlists hcreated, Option.map_map]
    rfl
  have hflag : ∀ (b : Bool) (p : Prop) [Decidable p], ((b || decide p) = true ↔ p) ↔ (b = true → p) := by
    intro b p _
    rw [Bool.or_eq_true, decide_eq_true_iff]
    exact or_iff_right_iff_imp
  unfold SoftPlcTagGroupImpl.Owned
  rw [hsource]
  constructor
  · intro howned tagName tag htag
    obtain ⟨store, hstore, hget⟩ := hget tagName
    rw [htag, Option.map_some] at hget
    have hflags := howned tagName _ hget
    rw [(hstore _).1, (hstore _).2, hflag, hflag] at hflags
    exact hflags
  · intro hfits tagName tag' htag'
    obtain ⟨store, hstore, hget⟩ := hget tagName
    rw [hget] at htag'
    obtain ⟨tag, htag, rfl⟩ := Option.map_eq_some_iff.mp htag'
    rw [(hstore _).1, (hstore _).2, hflag, hflag]
    exact hfits tagName tag htag

/-- A scan leaves the flags of the tags. -/
theorem owned_scan {env : SoftPlcEnv V} {impl : SoftPlcTagGroupImpl V} (h : impl.Owned io)
    (pollingInterval : Int) : (impl.scan env pollingInterval).1.Owned io := by
  refine h.same rfl fun tagName tag' htag' => ?_
  obtain ⟨store, hstore, hget⟩ := getElem?_scan env pollingInterval impl tagName
  rw [hget] at htag'
  obtain ⟨tag, htag, rfl⟩ := Option.map_eq_some_iff.mp htag'
  exact ⟨tag, htag, hstore tag⟩

/-- A write leaves the flags as they are. -/
theorem owned_softPlcSet {g : TagGroup V} (h : OwnedObject io g.softPlcImpl) (tagName : CStr)
    (value : V) : OwnedObject io (g.softPlcSet tagName value).softPlcImpl := by
  unfold TagGroup.softPlcSet
  cases himpl : g.softPlcImpl with
  | none =>
    simp only [himpl]
    exact trivial
  | some impl =>
    rw [himpl] at h
    simp only
    cases htag : impl.tags[tagName]? with
    | none =>
      simp only [himpl]
      exact h
    | some tag =>
      simp only
      split
      · rw [himpl]
        exact h
      · refine fun hinitialized => (h hinitialized).same rfl fun name tag' hget => ?_
        rcases (getElem?_insert_iff _ _ _ _ _).mp hget with ⟨rfl, rfl⟩ | ⟨-, hget⟩
        · exact ⟨tag, htag, rfl, rfl⟩
        · exact ⟨tag', hget, rfl, rfl⟩

section
variable {v : Visit V}

/-- A tag that is registered has no flag, which fits where the program does not name it. -/
theorem owned_registerTag_iff (h : OwnedObject io v.group.softPlcImpl) {tagName : CStr}
    (hnew : v.group.has tagName = false) (ty : TagType) :
    OwnedObject io (some { v.softPlc.1 with
        tags := v.softPlc.1.tags.insert tagName { dataType := ty } }) ↔
      ∀ impl, v.group.softPlcImpl = some impl →
        FlagsFitObject io v.group impl (.registerTag tagName ty) := by
  rcases v.softPlc_cases with ⟨hsome, -⟩ | ⟨hnone, hfresh⟩
  · rw [hsome] at h ⊢
    constructor
    · intro howned impl himpl hinitialized _
      rw [← Option.some.inj himpl] at hinitialized ⊢
      exact (owned_insert_iff (h hinitialized) ty).mp (howned hinitialized)
    · intro hfits hinitialized
      exact (owned_insert_iff (h hinitialized) ty).mpr (hfits _ rfl hinitialized hnew)
  · rw [hnone, hfresh]
    exact iff_of_true (fun hno => nomatch hno) fun _ hno => nomatch hno

/-- A poll leaves the flags right if and only if they fit the program that then runs. -/
theorem owned_poll_iff (h : OwnedObject io v.group.softPlcImpl)
    (herror : v.group.hasError = false) {env : Env V} (hlists : ListsIo io env.softPlc) :
    OwnedObject io (v.processSoftPlcTagGroup env.softPlc).group.softPlcImpl ↔
      ∀ impl, v.group.softPlcImpl = some impl → FlagsFitObject io v.group impl (.poll env) := by
  cases himpl : v.group.softPlcImpl with
  | none =>
    rw [processSoftPlcTagGroup_none env.softPlc himpl, himpl]
    exact iff_of_true trivial fun _ hno => nomatch hno
  | some impl =>
    rw [himpl] at h
    have hone : (∀ impl', some impl = some impl' → FlagsFitObject io v.group impl' (.poll env)) ↔
        FlagsFitObject io v.group impl (.poll env) :=
      ⟨fun hall => hall impl rfl, fun hfits impl' heq => Option.some.inj heq ▸ hfits⟩
    rw [hone]
    have hnothing : impl.creates env.softPlc v.group.gateway = false →
        FlagsFitObject io v.group impl (.poll env) :=
      fun hno _ hyes => absurd (hno.symm.trans hyes) Bool.false_ne_true
    rcases processSoftPlcTagGroup_cases env.softPlc himpl with
      ⟨hinitialized, hpoll⟩ | ⟨hinitialized, hcreates, engine, hasError, -, hpoll⟩ |
      ⟨hcreates, hrefused, hpoll⟩ | ⟨hcreates, hcreated, hpoll⟩
    · rw [hpoll]
      refine iff_of_true (fun _ => owned_scan (h hinitialized) _) (hnothing ?_)
      rw [SoftPlcTagGroupImpl.creates, hinitialized]
      rfl
    · rw [hpoll]
      exact iff_of_true (fun hyes => absurd (hinitialized.symm.trans hyes) Bool.false_ne_true)
        (hnothing hcreates)
    · rw [hpoll]
      have hinitialized := impl.not_initialized_of_creates hcreates
      exact iff_of_true (fun hyes => absurd (hinitialized.symm.trans hyes) Bool.false_ne_true)
        fun _ _ hcreated => absurd hcreated (Int.not_lt.mpr hrefused)
    · rw [hpoll]
      have hinitialized : ((impl.running env.softPlc).scan env.softPlc
          v.group.pollingInterval).1.initialized = true := by
        rw [running_eq]
        rfl
      have howned := owned_running_iff hlists v.group.pollingInterval hcreated
      constructor
      · exact fun hyes _ _ _ => howned.mp (hyes hinitialized)
      · exact fun hfits _ => howned.mpr (hfits herror hcreates hcreated)

/-- What happens to a group leaves the flags right if and only if it fits them. -/
theorem owned_apply_iff [Rtde.GodotVariant V] (h : v.group.Owned io) (op : GroupOp V)
    (hlists : ∀ env, op = .poll env → ListsIo io env.softPlc) :
    (v.apply op).group.Owned io ↔ v.group.FlagsFit io op := by
  unfold TagGroup.Owned TagGroup.FlagsFit
  rw [v.apply_protocol op]
  refine forall_congr' fun hprotocol => ?_
  have h := h hprotocol
  rw [softPlcImpl_apply hprotocol op]
  cases op with
  | registerTag tagName ty =>
    simp only
    cases hhas : v.group.has tagName with
    | true =>
      rw [if_pos rfl]
      exact iff_of_true h fun _ _ _ hno => absurd (hhas.symm.trans hno) Bool.false_ne_true.symm
    | false =>
      rw [if_neg Bool.false_ne_true]
      exact owned_registerTag_iff h hhas ty
  | poll env =>
    simp only
    cases herror : v.group.hasError with
    | true =>
      rw [if_pos rfl]
      exact iff_of_true h fun _ _ hno => absurd (herror.symm.trans hno) Bool.false_ne_true.symm
    | false =>
      rw [if_neg Bool.false_ne_true]
      exact owned_poll_iff h herror (hlists env rfl)
  | write env w =>
    simp only
    refine iff_of_true ?_ fun _ _ => trivial
    split
    · exact owned_softPlcSet h w.tagName w.value
    · exact h
  | read tagName ty | message topic payload | frame delta startupTimer =>
    exact iff_of_true h fun _ _ => trivial
  | setSoftPlcProgram source => exact iff_of_true (fun hno => nomatch hno) fun _ _ => trivial
  | setSoftPlcWatchEnabled enabled =>
    refine iff_of_true ?_ fun _ _ => trivial
    rcases v.softPlc_cases with ⟨hsome, -⟩ | ⟨-, hfresh⟩
    · rw [hsome] at h
      exact h
    · rw [hfresh]
      exact fun hno => nomatch hno
  | cleanup => exact iff_of_true trivial fun _ _ => trivial

end

end

/-! ## What the flags are for -/

/-- What parts and the engine find: a write to an output of the program that runs leaves the value, a
write to another tag stores its own, and a program is stepped with every input that was written. -/
def RespectsOwners [Rtde.GodotVariant V] (io : ProgramIo) (g : TagGroup V) (next : Nat) :
    GroupOp V → Prop
  | .write env w =>
    ∀ impl, g.softPlcImpl = some impl → impl.initialized = true →
      ∀ tag, impl.tags[w.tagName]? = some tag → (instructionType w.instruction).isSome = true →
        ∃ tag', (g.after next (.write env w)).group.softPlcTags[w.tagName]? = some tag' ∧
          tag'.value = if w.tagName ∈ (io impl.programSource).2 then tag.value else some w.value
  | .poll env =>
    ∀ impl, g.softPlcImpl = some impl →
      ∀ handle inputs dt, .softStep handle inputs dt ∈ (g.after next (.poll env)).calls →
        ∀ tagName ∈ (io impl.programSource).1, ∀ tag value, impl.tags[tagName]? = some tag →
          tag.value = some value → (tagName, value) ∈ inputs
  | .registerTag _ _ | .read _ _ | .message _ _ | .setSoftPlcProgram _
  | .setSoftPlcWatchEnabled _ | .frame _ _ | .cleanup => True

/-- An input that was written is among those of a scan. -/
theorem mem_inputs {impl : SoftPlcTagGroupImpl V} {tagName : CStr} {tag : SoftPlcTagEntry V}
    {value : V} (hget : impl.tags[tagName]? = some tag) (hinput : tag.isInput = true)
    (hvalue : tag.value = some value) : (tagName, value) ∈ impl.inputs := by
  refine List.mem_filterMap.mpr ⟨(tagName, tag),
    Std.ExtTreeMap.mem_toList_iff_getElem?_eq_some.mpr hget, ?_⟩
  simp only [hinput, if_true, hvalue, Option.map_some]

section
variable {io : ProgramIo} {g : TagGroup V}

/-- A write sets a tag, unless it is an output of the program. -/
theorem softPlcSet_value {impl : SoftPlcTagGroupImpl V} (himpl : g.softPlcImpl = some impl)
    (h : impl.Owned io) {tagName : CStr} {tag : SoftPlcTagEntry V}
    (htag : impl.tags[tagName]? = some tag) (value : V) :
    ∃ tag', (g.softPlcSet tagName value).softPlcTags[tagName]? = some tag' ∧
      tag'.value = if tagName ∈ (io impl.programSource).2 then tag.value else some value := by
  obtain ⟨-, houtput⟩ := h tagName tag htag
  unfold TagGroup.softPlcSet TagGroup.softPlcTags
  simp only [himpl, htag]
  by_cases hout : tag.isOutput = true
  · rw [if_pos hout, if_pos (houtput.mp hout), himpl]
    exact ⟨tag, htag, rfl⟩
  · rw [if_neg hout, if_neg (fun hmem => hout (houtput.mpr hmem))]
    exact ⟨_, Std.ExtTreeMap.getElem?_insert_self, rfl⟩

/-- A scan is handed the values of the program's inputs. -/
theorem poll_inputs (h : OwnedObject io g.softPlcImpl) {env : SoftPlcEnv V}
    (hlists : ListsIo io env) (next : Nat) {impl : SoftPlcTagGroupImpl V}
    (himpl : g.softPlcImpl = some impl) {handle : Int} {inputs : List (CStr × V)} {dt : Rat}
    (hstep : .softStep handle inputs dt ∈
      (Visit.processSoftPlcTagGroup env { group := g, next := next }).calls)
    {tagName : CStr} (hmem : tagName ∈ (io impl.programSource).1) {tag : SoftPlcTagEntry V}
    {value : V} (htag : impl.tags[tagName]? = some tag) (hvalue : tag.value = some value) :
    (tagName, value) ∈ inputs := by
  rw [himpl] at h
  rcases processSoftPlcTagGroup_cases env (v := { group := g, next := next }) himpl with
    ⟨hinitialized, hpoll⟩ | ⟨-, -, _, _, -, hpoll⟩ | ⟨-, -, hpoll⟩ | ⟨-, hcreated, hpoll⟩
  · rw [hpoll] at hstep
    cases List.mem_singleton.mp hstep
    exact mem_inputs htag ((h hinitialized tagName tag htag).1.mpr hmem) hvalue
  · rw [hpoll] at hstep
    cases hstep
  · rw [hpoll] at hstep
    cases List.mem_singleton.mp hstep
  · rw [hpoll] at hstep
    have hstep : LibCall.softStep handle inputs dt = .softStep (impl.running env).handle
        (impl.running env).inputs ((impl.running env).dt env g.pollingInterval) := by
      simpa only [Visit.scanned, Visit.makes, Visit.withGroup, SoftPlcTagGroupImpl.scan,
        List.nil_append, List.cons_append, List.mem_cons, reduceCtorEq, List.not_mem_nil, false_or,
        or_false] using hstep
    cases hstep
    have hget := getElem?_running hlists hcreated tagName
    rw [htag, Option.map_some] at hget
    refine mem_inputs hget ?_ hvalue
    simp only [hmem, decide_true, Bool.or_true]

/-- With right flags, each tag is written by whom it belongs to. -/
theorem respectsOwners_of_owned [Rtde.GodotVariant V] (hprotocol : g.protocol = .softPlc)
    (h : g.Owned io) (next : Nat) (op : GroupOp V)
    (hlists : ∀ env, op = .poll env → ListsIo io env.softPlc) : RespectsOwners io g next op := by
  have h := h hprotocol
  cases op with
  | write env w =>
    intro impl himpl hinitialized tag htag hinstruction
    rw [himpl] at h
    obtain ⟨tag', hget, hvalue⟩ := softPlcSet_value himpl (h hinitialized) htag w.value
    refine ⟨tag', ?_, hvalue⟩
    have hobject := softPlcImpl_apply (v := { group := g, next := next }) hprotocol (.write env w)
    simp only [hinstruction, if_true] at hobject
    rw [TagGroup.softPlcTags, TagGroup.after, hobject]
    exact hget
  | poll env =>
    intro impl himpl handle inputs dt hstep tagName hmem tag value htag hvalue
    unfold TagGroup.after Visit.apply Visit.processTagGroup at hstep
    simp only [hprotocol] at hstep
    split at hstep
    · cases hstep
    · exact poll_inputs h (hlists env rfl) next himpl hstep hmem htag hvalue
  | registerTag tagName ty | read tagName ty | message topic payload | setSoftPlcProgram source
  | setSoftPlcWatchEnabled enabled | frame delta startupTimer | cleanup => trivial

end

/-! ## Runs -/

section
variable [Rtde.GodotVariant V] (io : ProgramIo)

/-- The engine of a poll says of every program what it has. -/
def Label.ListsIo : Label V → Prop
  | .work _ poll => Backend.ListsIo io poll.softPlc
  | .call _ | .push _ | .message _ _ _ => True

/-- The flags of every group are right. -/
def OwnedTags (m : Machine V) : Prop := m.comms.Every (TagGroup.Owned io)

/-- What a step does to a soft PLC group respects whose the tags are. -/
def StepRespectsOwners (m : Machine V) (l : Label V) : Prop :=
  ∀ x ∈ m.changed l, x.2.1.protocol = .softPlc → RespectsOwners io x.2.1 m.comms.next x.2.2

/-- No step registers a tag of a program that runs already, or compiles a program that has not every
tag which has a flag. -/
def StepFitsFlags (m : Machine V) (l : Label V) : Prop :=
  ∀ x ∈ m.changed l, x.2.1.FlagsFit io x.2.2

omit [Rtde.GodotVariant V] in
/-- What a step does to the groups it does with programs that list their tags. -/
theorem lists_changed {io : ProgramIo} {m : Machine V} {l : Label V} (hlists : l.ListsIo io)
    {x : CStr × TagGroup V × GroupOp V} (hx : x ∈ m.changed l) :
    ∀ env, x.2.2 = .poll env → ListsIo io env.softPlc := by
  intro env hpoll
  obtain ⟨write, rfl⟩ := Machine.changed_poll hx hpoll
  exact hlists

omit [Rtde.GodotVariant V] in
theorem owned_empty {io : ProgramIo} : ({} : TagGroup V).Owned io := fun hno => nomatch hno

/-- A step whose flags fit leaves them right. -/
theorem owned_step {io : ProgramIo} {m : Machine V} {l : Label V} (hlists : l.ListsIo io)
    (h : OwnedTags io m) (hfits : StepFitsFlags io m l) : OwnedTags io (m.step l) := by
  refine Machine.every_step h owned_empty (fun _ _ _ _ _ _ => trivial) fun x hx hg => ?_
  exact (owned_apply_iff (v := { group := x.2.1, next := m.comms.next }) hg x.2.2
    (lists_changed hlists hx)).mpr (hfits x hx)

/-- A step that does not fit the flags leaves wrong ones. -/
theorem not_owned_step {io : ProgramIo} {m : Machine V} {l : Label V} (hlists : l.ListsIo io)
    (h : OwnedTags io m) (hno : ¬ StepFitsFlags io m l) : ¬ OwnedTags io (m.step l) := by
  intro howned
  refine hno fun x hx => ?_
  have hg := m.changed_every h owned_empty x hx
  refine (owned_apply_iff (v := { group := x.2.1, next := m.comms.next }) hg x.2.2
    (lists_changed hlists hx)).mp ?_
  rcases Machine.step_get hx with hget | ⟨hcleanup, -⟩
  · exact howned x.1 _ hget
  · rw [hcleanup]
    refine (owned_apply_iff hg .cleanup fun _ hno => nomatch hno).mpr ?_
    exact fun _ _ _ => trivial

/-- In a run whose engine says of every program what it has, the flags of every tag are those of the
program that runs, and every step respects them, if and only if every step fits the flags. -/
theorem owned_tags_iff (ops : List (Label V)) (hlists : ∀ l ∈ ops, l.ListsIo io) :
    Along Machine.step (OwnedTags io) ({} : Machine V) ops ∧
        Meets Machine.step (StepRespectsOwners io) ({} : Machine V) ops ↔
      Meets Machine.step (StepFitsFlags io) ({} : Machine V) ops := by
  have hD := meets_of_labels (Machine.step (V := V)) hlists {}
  have hinit : OwnedTags io ({} : Machine V) :=
    fun name g hget => (nomatch Std.ExtTreeMap.getElem?_empty.symm.trans hget)
  have hiff : Along Machine.step (OwnedTags io) ({} : Machine V) ops ↔
      Meets Machine.step (StepFitsFlags io) ({} : Machine V) ops :=
    along_iff_meets Machine.step (B := fun _ => True) (J := OwnedTags io)
      (fun _ _ _ _ => trivial) (fun _ _ _ h hl hfits => owned_step hl h hfits)
      (fun _ _ h => h) (fun _ _ _ h hl hno => not_owned_step hl h hno) trivial hinit hD
  rw [← hiff, and_iff_left_iff_imp]
  intro halong
  refine halong.meets Machine.step (fun m l h hl x hx hprotocol => ?_) hD
  exact respectsOwners_of_owned hprotocol (m.changed_every h owned_empty x hx) m.comms.next x.2.2
    (lists_changed hl hx)

end

/-- An engine that takes two programs: to one `run` is an output, to the other an input. -/
def twoPrograms : Env Bool :=
  { softPlc :=
    { create := fun source => if source = "x".toList then 1 else if source = "y".toList then 2 else 0
      metaData := fun handle =>
        if handle = 1 then some ([], ["run".toList]) else some (["run".toList], []) } }

def twoProgramsIo : ProgramIo := fun source =>
  if source = "x".toList then ([], ["run".toList]) else (["run".toList], [])

theorem lists_twoPrograms : ListsIo twoProgramsIo twoPrograms.softPlc := by
  intro source hcreated
  simp only [twoPrograms, twoProgramsIo] at hcreated ⊢
  by_cases hx : source = "x".toList
  · simp only [if_pos hx, if_true]
  · by_cases hy : source = "y".toList
    · simp only [if_neg hx, if_pos hy]
      rfl
    · simp only [if_neg hx, if_neg hy] at hcreated
      cases hcreated

/-- A program is set and compiled, and then the other. -/
def recompiled : List (Label Bool) :=
  started "g".toList .softPlc "run".toList ++
    [.call (.setSoftPlcProgram "g".toList "x".toList), .call (.process 100000)] ++
    List.replicate 3 (.work {} twoPrograms) ++
    [.call (.setSoftPlcProgram "g".toList "y".toList), .call (.process 200000)] ++
    List.replicate 3 (.work {} twoPrograms)

theorem lists_recompiled : ∀ l ∈ recompiled, l.ListsIo twoProgramsIo := by
  intro l hl
  simp only [recompiled, started, List.mem_append, List.mem_cons, List.mem_replicate,
    List.not_mem_nil, or_false] at hl
  rcases hl with ((((rfl | rfl | rfl) | rfl | rfl) | ⟨-, rfl⟩) | rfl | rfl) | ⟨-, rfl⟩
  · trivial
  · trivial
  · trivial
  · trivial
  · trivial
  · exact lists_twoPrograms
  · trivial
  · trivial
  · exact lists_twoPrograms

/-- A tag that is an output of one program, and an input of the next. -/
theorem owned_tags_recompiled :
    Along Machine.step (OwnedTags twoProgramsIo) ({} : Machine Bool) recompiled ∧
        Meets Machine.step (StepRespectsOwners twoProgramsIo) ({} : Machine Bool) recompiled ↔
      Meets Machine.step (StepFitsFlags twoProgramsIo) ({} : Machine Bool) recompiled :=
  owned_tags_iff twoProgramsIo recompiled lists_recompiled

/-- `run` is an input now, and still has the flag of an output. -/
theorem stale_output_flag :
    (∀ l ∈ recompiled, l.ListsIo twoProgramsIo) ∧
      ¬ (Along Machine.step (OwnedTags twoProgramsIo) ({} : Machine Bool) recompiled ∧
        Meets Machine.step (StepRespectsOwners twoProgramsIo) ({} : Machine Bool) recompiled) := by
  refine ⟨lists_recompiled, fun h => ?_⟩
  have howned := h.1.last
  have hflag : (run Machine.step ({} : Machine Bool) recompiled).comms.tagGroups["g".toList]?.any
      (fun g => g.protocol = .softPlc && g.softPlcImpl.any fun impl => impl.initialized &&
        impl.programSource = "y".toList &&
          impl.tags["run".toList]?.any SoftPlcTagEntry.isOutput) = true := by decide
  obtain ⟨g, hget, hg⟩ := (Option.any_eq_true _ _).mp hflag
  obtain ⟨hprotocol, hg⟩ := Bool.and_eq_true_iff.mp hg
  obtain ⟨impl, himpl, hg⟩ := (Option.any_eq_true _ _).mp hg
  obtain ⟨hg, htag⟩ := Bool.and_eq_true_iff.mp hg
  obtain ⟨hinitialized, hsource⟩ := Bool.and_eq_true_iff.mp hg
  obtain ⟨tag, htag, houtput⟩ := (Option.any_eq_true _ _).mp htag
  have hobject := howned _ g hget (of_decide_eq_true hprotocol)
  rw [himpl] at hobject
  have hmem := ((hobject hinitialized) _ tag htag).2.mp houtput
  rw [of_decide_eq_true hsource] at hmem
  exact absurd hmem (by decide)

end OipComms.Backend
