import OipComms.Backend.Group
import OipComms.Lib.Rounding

/-!
# A soft PLC group

The program a group runs is the one `set_soft_plc_program` gave it last, compiled by the next poll
that gets to it. Which tags are inputs and which are outputs is set when it is compiled. A scan hands
the inputs that were written to the engine and takes the outputs from it.
-/

namespace OipComms.Backend

open Sweep

/-- What the file system, the engine and the clock of the simulation answer in a poll. The two lists
of `meta` are the inputs and the outputs; it is none where the text is not a dictionary. -/
structure SoftPlcEnv (V : Type) where
  bundle : CStr → Option CStr := fun _ => some []
  loadBundle : CStr → Bool := fun _ => true
  create : CStr → Int := fun _ => 1
  metaData : Int → Option (List CStr × List CStr) := fun _ => some ([], [])
  step : Int → List (CStr × V) → Rat → Option (List (CStr × Option V)) := fun _ _ _ => some []
  watch : Int → Option (List (CStr × V)) := fun _ => some []
  physicsFrames : UInt64 := 0
  ticksPerSecond : Int := 60

variable {V : Type}

/-- A flag of the tags in a list is set; the tags that are not there stay so. -/
def markTags (mark : SoftPlcTagEntry V → SoftPlcTagEntry V) (names : List CStr)
    (tags : Std.ExtTreeMap CStr (SoftPlcTagEntry V)) : Std.ExtTreeMap CStr (SoftPlcTagEntry V) :=
  tags.map fun tagName tag => if tagName ∈ names then mark tag else tag

/-- The tags as the program's `meta` marks them. -/
def SoftPlcTagGroupImpl.marked (impl : SoftPlcTagGroupImpl V)
    (metaData : Option (List CStr × List CStr)) : SoftPlcTagGroupImpl V :=
  match metaData with
  | none => impl
  | some (ins, outs) =>
    { impl with
      tags := markTags (fun tag => { tag with isOutput := true }) outs
        (markTags (fun tag => { tag with isInput := true }) ins impl.tags) }

/-- What became of a compile: there is nothing to run, an error is set, or a program runs. -/
inductive Compiled
  | waits
  | fails
  | runs
  deriving DecidableEq

/-- The first half of `process_soft_plc_tag_group`: the program is compiled if it is new. -/
def SoftPlcTagGroupImpl.compile (env : SoftPlcEnv V) (gateway : CStr)
    (impl : SoftPlcTagGroupImpl V) : Compiled × SoftPlcTagGroupImpl V × List (LibCall V) :=
  if impl.initialized then (.runs, impl, [])
  else if impl.programSource = [] then (.waits, impl, [])
  else
    let engine := impl.engine.getD {}
    let impl := { impl with engine := some engine }
    if !impl.bundleLoaded && !(env.bundle gateway).any env.loadBundle then (.fails, impl, [])
    else
      let handle := env.create impl.programSource
      let impl := { impl with bundleLoaded := true, handle := handle }
      let created := .softCreate impl.programSource handle
      if handle ≤ 0 then (.fails, impl, [created])
      else
        let impl := { impl with engine := some { programs := engine.programs ++ [handle] } }
        (.runs, { impl.marked (env.metaData handle) with initialized := true, lastPhysFrame := 0 },
          [.acquire (.program impl.address handle), created])

/-- The inputs that were written, in the order of the map. -/
def SoftPlcTagGroupImpl.inputs (impl : SoftPlcTagGroupImpl V) : List (CStr × V) :=
  impl.tags.toList.filterMap fun x => if x.2.isInput then x.2.value.map (x.1, ·) else none

/-- The `double` nearest to a number. -/
def double (x : Rat) : Rat := Rounding.roundBits 53 x

/-- The time since the last scan, in seconds; the first scan takes the polling interval. The interval
and the ticks are an `int` each, and a `double` holds these as they are. -/
def SoftPlcTagGroupImpl.dt (env : SoftPlcEnv V) (pollingInterval : Int)
    (impl : SoftPlcTagGroupImpl V) : Rat :=
  if impl.lastPhysFrame = 0 ∨ env.ticksPerSecond ≤ 0 then double (pollingInterval / 1000)
  else double (double (env.physicsFrames - impl.lastPhysFrame).toNat / env.ticksPerSecond)

/-- The outputs of a scan are stored in the tags that are there. -/
def storeOutputs (outputs : List (CStr × Option V))
    (tags : Std.ExtTreeMap CStr (SoftPlcTagEntry V)) : Std.ExtTreeMap CStr (SoftPlcTagEntry V) :=
  tags.map fun tagName tag =>
    match outputs.lookup tagName with
    | none => tag
    | some value => { tag with value := value }

/-- The second half of `process_soft_plc_tag_group`: a scan. -/
def SoftPlcTagGroupImpl.scan (env : SoftPlcEnv V) (pollingInterval : Int)
    (impl : SoftPlcTagGroupImpl V) : SoftPlcTagGroupImpl V × List (LibCall V) :=
  let dt := impl.dt env pollingInterval
  let outputs := env.step impl.handle impl.inputs dt
  ({ impl with
      lastPhysFrame := env.physicsFrames
      tags := storeOutputs (outputs.getD []) impl.tags
      watchImage := if impl.watchEnabled then (env.watch impl.handle).getD [] else impl.watchImage },
    [.softStep impl.handle impl.inputs dt])

/-- `process_soft_plc_tag_group`. -/
def Visit.processSoftPlcTagGroup (env : SoftPlcEnv V) (v : Visit V) : Visit V :=
  match v.group.softPlcImpl with
  | none => v
  | some impl =>
    match impl.compile env v.group.gateway with
    | (.waits, impl, calls) =>
      (v.withGroup { v.group with softPlcImpl := some impl }).makes calls
    | (.fails, impl, calls) =>
      (v.withGroup { v.group with softPlcImpl := some impl, hasError := true }).makes calls
    | (.runs, impl, calls) =>
      let (impl, scanned) := impl.scan env v.group.pollingInterval
      (v.withGroup { v.group with softPlcImpl := some impl }).makes (calls ++ scanned)

/-! What follows says of a poll that it scans what runs, comes to nothing, or creates a program. -/

/-- A poll without an object does nothing. -/
theorem processSoftPlcTagGroup_none (env : SoftPlcEnv V) {v : Visit V}
    (hnone : v.group.softPlcImpl = none) : v.processSoftPlcTagGroup env = v := by
  rw [Visit.processSoftPlcTagGroup, hnone]

/-- The poll comes to `create`. -/
def SoftPlcTagGroupImpl.creates (env : SoftPlcEnv V) (gateway : CStr)
    (impl : SoftPlcTagGroupImpl V) : Bool :=
  !impl.initialized && impl.programSource ≠ [] &&
    (impl.bundleLoaded || (env.bundle gateway).any env.loadBundle)

/-- A poll that comes to `create` has found a program that is not compiled. -/
theorem SoftPlcTagGroupImpl.not_initialized_of_creates {env : SoftPlcEnv V} {gateway : CStr}
    {impl : SoftPlcTagGroupImpl V} (h : impl.creates env gateway = true) :
    impl.initialized = false :=
  Bool.not_eq_true' _ |>.mp (Bool.and_eq_true_iff.mp (Bool.and_eq_true_iff.mp h).1).1

/-- The object when `create` has failed. -/
def SoftPlcTagGroupImpl.refused (env : SoftPlcEnv V) (impl : SoftPlcTagGroupImpl V) :
    SoftPlcTagGroupImpl V :=
  { impl with
    engine := some (impl.engine.getD {}), bundleLoaded := true
    handle := env.create impl.programSource }

/-- The object when `create` has made a program of its source. -/
def SoftPlcTagGroupImpl.running (env : SoftPlcEnv V) (impl : SoftPlcTagGroupImpl V) :
    SoftPlcTagGroupImpl V :=
  let handle := env.create impl.programSource
  let impl := { impl.refused env with
    engine := some { programs := (impl.engine.getD {}).programs ++ [handle] } }
  { impl.marked (env.metaData handle) with initialized := true, lastPhysFrame := 0 }

/-- Of a program that runs, `meta` has marked the tags and nothing else. -/
theorem running_eq (env : SoftPlcEnv V) (impl : SoftPlcTagGroupImpl V) :
    impl.running env = { impl.refused env with
      engine := some
        { programs := (impl.engine.getD {}).programs ++ [env.create impl.programSource] }
      tags := (impl.marked (env.metaData (env.create impl.programSource))).tags
      initialized := true, lastPhysFrame := 0 } := by
  unfold SoftPlcTagGroupImpl.running SoftPlcTagGroupImpl.marked
  simp only
  cases env.metaData (env.create impl.programSource) with
  | none => rfl
  | some io => rfl

/-- A scan of the object after some calls. -/
def Visit.scanned (env : SoftPlcEnv V) (v : Visit V) (impl : SoftPlcTagGroupImpl V)
    (calls : List (LibCall V)) : Visit V :=
  let (impl, scanned) := impl.scan env v.group.pollingInterval
  (v.withGroup { v.group with softPlcImpl := some impl }).makes (calls ++ scanned)

/-- A compile that comes to `create` fails or runs by the handle it is answered with. -/
theorem compile_creates {env : SoftPlcEnv V} {gateway : CStr} {impl : SoftPlcTagGroupImpl V}
    (h : impl.creates env gateway = true) :
    impl.compile env gateway =
      if env.create impl.programSource ≤ 0 then
        (.fails, impl.refused env, [.softCreate impl.programSource (env.create impl.programSource)])
      else
        (.runs, impl.running env,
          [.acquire (.program impl.address (env.create impl.programSource)),
            .softCreate impl.programSource (env.create impl.programSource)]) := by
  simp only [SoftPlcTagGroupImpl.creates, Bool.and_eq_true, Bool.not_eq_true',
    decide_eq_true_eq, Bool.or_eq_true] at h
  obtain ⟨⟨hinitialized, hsource⟩, hbundle⟩ := h
  have hloaded : (!impl.bundleLoaded && !(env.bundle gateway).any env.loadBundle) = false := by
    rcases hbundle with hbundle | hbundle
    · rw [hbundle]
      rfl
    · rw [hbundle, Bool.not_true, Bool.and_false]
  unfold SoftPlcTagGroupImpl.compile
  rw [if_neg (by rw [hinitialized]; exact Bool.false_ne_true), if_neg hsource]
  simp only [hloaded, Bool.false_eq_true, if_false]
  split
  · rfl
  · rfl

/-- A compile that does not come to `create` makes no program. -/
theorem compile_not_creates {env : SoftPlcEnv V} {gateway : CStr} {impl : SoftPlcTagGroupImpl V}
    (hinitialized : impl.initialized = false) (h : impl.creates env gateway = false) :
    ∃ compiled engine, (engine.map SoftPlcEngine.programs).getD [] = impl.created ∧
      compiled ≠ .runs ∧
      impl.compile env gateway = (compiled, { impl with engine := engine }, []) := by
  unfold SoftPlcTagGroupImpl.compile
  rw [if_neg (by rw [hinitialized]; exact Bool.false_ne_true)]
  split
  · exact ⟨.waits, impl.engine, rfl, fun hno => (nomatch hno), rfl⟩
  · rename_i hsource
    have hbundle : (!impl.bundleLoaded && !(env.bundle gateway).any env.loadBundle) = true := by
      rw [SoftPlcTagGroupImpl.creates, hinitialized, decide_eq_true hsource, Bool.not_false,
        Bool.true_and, Bool.true_and] at h
      rw [← Bool.not_or, h]
      rfl
    refine ⟨.fails, some (impl.engine.getD {}), ?_, fun hno => (nomatch hno), ?_⟩
    · rw [SoftPlcTagGroupImpl.created]
      cases impl.engine <;> rfl
    · simp only [hbundle, if_true]

/-- A poll scans the program there is, comes to no program, or compiles one that fails or is
scanned. -/
theorem processSoftPlcTagGroup_cases (env : SoftPlcEnv V) {v : Visit V}
    {impl : SoftPlcTagGroupImpl V} (himpl : v.group.softPlcImpl = some impl) :
    impl.initialized = true ∧ v.processSoftPlcTagGroup env = v.scanned env impl [] ∨
    impl.initialized = false ∧ impl.creates env v.group.gateway = false ∧
      (∃ engine hasError, (engine.map SoftPlcEngine.programs).getD [] = impl.created ∧
        v.processSoftPlcTagGroup env = v.withGroup { v.group with
          softPlcImpl := some { impl with engine := engine }, hasError := hasError }) ∨
    impl.creates env v.group.gateway = true ∧ env.create impl.programSource ≤ 0 ∧
      v.processSoftPlcTagGroup env =
        (v.withGroup { v.group with
          softPlcImpl := some (impl.refused env), hasError := true }).makes
            [.softCreate impl.programSource (env.create impl.programSource)] ∨
    impl.creates env v.group.gateway = true ∧ 0 < env.create impl.programSource ∧
      v.processSoftPlcTagGroup env = v.scanned env (impl.running env)
        [.acquire (.program impl.address (env.create impl.programSource)),
          .softCreate impl.programSource (env.create impl.programSource)] := by
  unfold Visit.processSoftPlcTagGroup
  simp only [himpl]
  by_cases hinitialized : impl.initialized = true
  · refine .inl ⟨hinitialized, ?_⟩
    rw [SoftPlcTagGroupImpl.compile, if_pos hinitialized]
    rfl
  by_cases hcreates : impl.creates env v.group.gateway = true
  · rw [compile_creates hcreates]
    by_cases hrefused : env.create impl.programSource ≤ 0
    · rw [if_pos hrefused]
      exact .inr (.inr (.inl ⟨hcreates, hrefused, rfl⟩))
    · rw [if_neg hrefused]
      exact .inr (.inr (.inr ⟨hcreates, Int.not_le.mp hrefused, rfl⟩))
  · rw [Bool.not_eq_true] at hinitialized hcreates
    obtain ⟨compiled, engine, hcreated, hruns, hcompile⟩ :=
      compile_not_creates hinitialized hcreates
    rw [hcompile]
    cases compiled with
    | waits =>
      refine .inr (.inl ⟨hinitialized, hcreates, engine, v.group.hasError, hcreated, ?_⟩)
      simp only [Visit.makes, List.append_nil]
    | fails =>
      refine .inr (.inl ⟨hinitialized, hcreates, engine, true, hcreated, ?_⟩)
      simp only [Visit.makes, List.append_nil]
    | runs => exact absurd rfl hruns

/-- A poll changes the object and the error of a group. -/
theorem Visit.processSoftPlcTagGroup_group (env : SoftPlcEnv V) (v : Visit V) :
    ∃ softPlcImpl hasError, (v.processSoftPlcTagGroup env).group =
      { v.group with softPlcImpl := softPlcImpl, hasError := hasError } := by
  unfold Visit.processSoftPlcTagGroup
  split
  · exact ⟨_, _, rfl⟩
  · split
    · exact ⟨_, _, rfl⟩
    · exact ⟨_, _, rfl⟩
    · exact ⟨_, _, rfl⟩

/-- A poll leaves the protocol. -/
theorem Visit.processSoftPlcTagGroup_protocol (env : SoftPlcEnv V) (v : Visit V) :
    (v.processSoftPlcTagGroup env).group.protocol = v.group.protocol := by
  obtain ⟨_, _, hgroup⟩ := v.processSoftPlcTagGroup_group env
  rw [hgroup]

/-- `set_soft_plc_program` on a group that is there, of whatever protocol. -/
def Visit.setSoftPlcProgram (v : Visit V) (source : CStr) : Visit V :=
  let (impl, v) := v.softPlc
  let impl := { impl with programSource := source, initialized := false }
  v.withGroup { v.group with softPlcImpl := some impl }

/-- `set_soft_plc_watch_enabled`, likewise. -/
def Visit.setSoftPlcWatchEnabled (v : Visit V) (enabled : Bool) : Visit V :=
  let (impl, v) := v.softPlc
  v.withGroup { v.group with softPlcImpl := some { impl with watchEnabled := enabled } }

/-- The soft PLC branch of `process_write`: a part may write inputs, never outputs. -/
def TagGroup.softPlcSet (g : TagGroup V) (tagName : CStr) (value : V) : TagGroup V :=
  match g.softPlcImpl with
  | none => g
  | some impl =>
    match impl.tags[tagName]? with
    | none => g
    | some tag =>
      if tag.isOutput then g
      else
        let tag := { tag with value := some value }
        { g with softPlcImpl := some { impl with tags := impl.tags.insert tagName tag } }

/-- A write changes the object and nothing else of the group. -/
theorem softPlcSet_group (g : TagGroup V) (tagName : CStr) (value : V) :
    ∃ impl, g.softPlcSet tagName value = { g with softPlcImpl := impl } := by
  unfold TagGroup.softPlcSet
  split
  · exact ⟨g.softPlcImpl, rfl⟩
  split
  · exact ⟨g.softPlcImpl, rfl⟩
  split
  · exact ⟨g.softPlcImpl, rfl⟩
  · exact ⟨_, rfl⟩

end OipComms.Backend
