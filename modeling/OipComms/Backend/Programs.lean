import OipComms.Backend.System

/-!
# The program a soft PLC group runs

`set_soft_plc_program` leaves the source and asks for a compile; the next poll that gets to it
compiles and scans. A poll of a group that has an error gets to nothing, and a program that does not
compile sets the error.

`Program` remembers of each group the source that was set last, and what was created last.
-/

namespace OipComms.Backend

open Run Sweep

variable {V : Type}

/-! ## What is remembered -/

/-- The source set last, whether no poll came since, and what was created last, with its handle. -/
structure Program where
  source : Option CStr := none
  pending : Bool := false
  created : Option (CStr × Int) := none
  deriving DecidableEq, Repr

/-- What a list of calls creates last. -/
def createdIn (calls : List (LibCall V)) : Option (CStr × Int) :=
  (calls.filterMap fun
    | .softCreate source handle => some (source, handle)
    | _ => none).getLast?

/-- What is remembered after something happens to the group that makes some calls. -/
def Program.note (calls : List (LibCall V)) (p : Program) : GroupOp V → Program
  | .setSoftPlcProgram source => { p with source := some source, pending := true }
  | .poll _ => { p with pending := false, created := (createdIn calls).or p.created }
  | .cleanup => {}
  | .registerTag _ _ | .write _ _ | .read _ _ | .message _ _ | .setSoftPlcWatchEnabled _
  | .frame _ _ => p

/-- The programs, by the name of the group. -/
abbrev Programs := CStr → Program

section
variable [Rtde.GodotVariant V]

/-- What is remembered after a step. A group that is registered begins anew. -/
def Programs.note (m : Machine V) (l : Label V) (programs : Programs) : Programs := fun name =>
  let after (op : GroupOp V) : Program :=
    (programs name).note ((m.comms.group name).after m.comms.next op).calls op
  match m.change l with
  | .nothing => programs name
  | .one name' op => if name' = name then after op else programs name
  | .all op => after op
  | .register name' _ => if name' = name then {} else programs name
  | .clear => {}

/-- A step with what is remembered. -/
def Programs.step : Machine V × Programs → Label V → Machine V × Programs :=
  watch Machine.step Programs.note

/-- The start of every run. -/
def Programs.init : Machine V × Programs := ({}, fun _ => {})

end

/-! ## The object and what is remembered -/

/-- The object has the source set last, and if it is compiled, it is the program created last. -/
structure Program.Tracks (p : Program) (impl : SoftPlcTagGroupImpl V) : Prop where
  source : impl.programSource = p.source.getD []
  runs : impl.initialized = true → p.pending = false ∧ p.source = some impl.programSource ∧
    p.created = some (impl.programSource, impl.handle)

/-- A group without an object was given no source. -/
def Program.TracksObject (p : Program) : Option (SoftPlcTagGroupImpl V) → Prop
  | none => p.source = none
  | some impl => p.Tracks impl

/-- What every group keeps with its program. -/
def TagGroup.Tracked (g : TagGroup V) (p : Program) : Prop :=
  g.protocol = .softPlc → p.TracksObject g.softPlcImpl

theorem Program.Tracks.same {p : Program} {impl impl' : SoftPlcTagGroupImpl V} (h : p.Tracks impl)
    (hsource : impl'.programSource = impl.programSource)
    (hinitialized : impl'.initialized = impl.initialized) (hhandle : impl'.handle = impl.handle) :
    p.Tracks impl' := by
  refine ⟨hsource.trans h.source, ?_⟩
  rw [hinitialized, hsource, hhandle]
  exact h.runs

/-- There is a source to create. -/
theorem Program.Tracks.some_of_creates {p : Program} {impl : SoftPlcTagGroupImpl V}
    (h : p.Tracks impl) {env : SoftPlcEnv V} {gateway : CStr}
    (hcreates : impl.creates env gateway = true) : p.source = some impl.programSource := by
  have hsource := of_decide_eq_true
    (Bool.and_eq_true_iff.mp (Bool.and_eq_true_iff.mp hcreates).1).2
  have hp := h.source
  cases hset : p.source with
  | none =>
    rw [hset] at hp
    exact absurd hp hsource
  | some source =>
    rw [hset] at hp
    exact congrArg some hp.symm

section
variable {v : Visit V} {p : Program}

theorem tracks_softPlc (hprotocol : v.group.protocol = .softPlc) (h : v.group.Tracked p) :
    p.Tracks v.softPlc.1 := by
  have h := h hprotocol
  rcases v.softPlc_cases with ⟨hsome, -⟩ | ⟨hnone, hnew⟩
  · rw [hsome] at h
    exact h
  · rw [hnone] at h
    rw [hnew]
    exact ⟨by rw [h]; rfl, fun hno => nomatch hno⟩

/-- A poll of a group without error leaves the object of the source set last, compiled if it could
be. -/
theorem tracks_processSoftPlcTagGroup {impl : SoftPlcTagGroupImpl V}
    (himpl : v.group.softPlcImpl = some impl) (hcalls : v.calls = []) (h : p.Tracks impl)
    (env : Env V) :
    ∃ impl', (v.processSoftPlcTagGroup env.softPlc).group.softPlcImpl = some impl' ∧
      (p.note (v.processSoftPlcTagGroup env.softPlc).calls (.poll env)).Tracks impl' := by
  rcases processSoftPlcTagGroup_cases env.softPlc himpl with
    ⟨hinitialized, hpoll⟩ | ⟨hinitialized, -, engine, hasError, -, hpoll⟩ |
    ⟨hcreates, -, hpoll⟩ | ⟨hcreates, -, hpoll⟩
  · rw [hpoll]
    refine ⟨_, rfl, h.source, fun _ => ⟨rfl, (h.runs hinitialized).2.1, ?_⟩⟩
    show (createdIn (v.calls ++ [_])).or p.created = _
    rw [hcalls]
    exact (h.runs hinitialized).2.2
  · rw [hpoll]
    exact ⟨_, rfl, h.source, fun hyes => absurd (hinitialized.symm.trans hyes) Bool.false_ne_true⟩
  · have hinitialized := impl.not_initialized_of_creates hcreates
    rw [hpoll]
    exact ⟨_, rfl, h.source, fun hyes => absurd (hinitialized.symm.trans hyes) Bool.false_ne_true⟩
  · rw [hpoll, running_eq]
    refine ⟨_, rfl, h.source, fun _ => ⟨rfl, h.some_of_creates hcreates, ?_⟩⟩
    show (createdIn (v.calls ++ _)).or p.created = _
    rw [hcalls]
    rfl

/-- Whatever happens to a group, what is remembered stays true. -/
theorem TagGroup.Tracked.apply [Rtde.GodotVariant V] (h : v.group.Tracked p) (hcalls : v.calls = [])
    (op : GroupOp V) : (v.apply op).group.Tracked (p.note (v.apply op).calls op) := by
  intro hprotocol
  rw [v.apply_protocol op] at hprotocol
  have hnew := tracks_softPlc hprotocol h
  rw [softPlcImpl_apply hprotocol op]
  cases op with
  | registerTag tagName ty =>
    show p.TracksObject (if _ then _ else _)
    split
    · exact h hprotocol
    · exact hnew.same rfl rfl rfl
  | poll env =>
    show Program.TracksObject _ (if _ then _ else _)
    simp only [Visit.apply, Visit.processTagGroup, hprotocol]
    have h := h hprotocol
    cases himpl : v.group.softPlcImpl with
    | none =>
      rw [himpl] at h
      rw [processSoftPlcTagGroup_none env.softPlc himpl, himpl, ite_self, ite_self]
      exact h
    | some impl =>
      rw [himpl] at h
      by_cases herror : v.group.hasError = true
      · rw [if_pos herror, if_pos herror, hcalls]
        exact ⟨h.source, fun hyes => ⟨rfl, (h.runs hyes).2⟩⟩
      · obtain ⟨impl', himpl', htracks⟩ := tracks_processSoftPlcTagGroup himpl hcalls h env
        rw [if_neg herror, if_neg herror, himpl']
        exact htracks
  | write env w =>
    show p.TracksObject (if _ then _ else _)
    split
    · unfold TagGroup.softPlcSet
      have h := h hprotocol
      cases himpl : v.group.softPlcImpl with
      | none =>
        rw [himpl] at h
        simp only [himpl]
        exact h
      | some impl =>
        rw [himpl] at h
        simp only
        split
        · rw [himpl]
          exact h
        split
        · rw [himpl]
          exact h
        · exact h.same rfl rfl rfl
    · exact h hprotocol
  | read tagName ty | message topic payload | frame delta startupTimer => exact h hprotocol
  | setSoftPlcProgram source => exact ⟨rfl, fun hno => absurd hno Bool.false_ne_true⟩
  | setSoftPlcWatchEnabled enabled => exact hnew.same rfl rfl rfl
  | cleanup => exact rfl

end

/-! ## A poll -/

/-- The poll creates the source and steps it. -/
def CreatesAndSteps (env : SoftPlcEnv V) (source : CStr) (calls : List (LibCall V)) : Prop :=
  ∃ address inputs dt, calls =
    [.acquire (.program address (env.create source)), .softCreate source (env.create source),
      .softStep (env.create source) inputs dt]

/-- Every program the poll steps is the one set last. -/
def StepsLast (p : Program) (calls : List (LibCall V)) : Prop :=
  ∀ handle inputs dt, .softStep handle inputs dt ∈ calls →
    ∃ source, p.source = some source ∧ (createdIn calls).or p.created = some (source, handle)

section
variable {v : Visit V} {p : Program}

/-- The calls of a poll that comes to the object. -/
theorem processSoftPlcTagGroup_calls (env : SoftPlcEnv V) {impl : SoftPlcTagGroupImpl V}
    (himpl : v.group.softPlcImpl = some impl) (hcalls : v.calls = []) :
    impl.initialized = true ∧
      (∃ inputs dt, (v.processSoftPlcTagGroup env).calls = [.softStep impl.handle inputs dt]) ∨
    impl.initialized = false ∧ impl.creates env v.group.gateway = false ∧
      (v.processSoftPlcTagGroup env).calls = [] ∨
    impl.creates env v.group.gateway = true ∧ env.create impl.programSource ≤ 0 ∧
      (v.processSoftPlcTagGroup env).calls =
        [.softCreate impl.programSource (env.create impl.programSource)] ∨
    impl.creates env v.group.gateway = true ∧ 0 < env.create impl.programSource ∧
      CreatesAndSteps env impl.programSource (v.processSoftPlcTagGroup env).calls := by
  rcases processSoftPlcTagGroup_cases env himpl with
    ⟨hinitialized, hpoll⟩ | ⟨hinitialized, hcreates, _, _, -, hpoll⟩ |
    ⟨hcreates, hrefused, hpoll⟩ | ⟨hcreates, hpositive, hpoll⟩
  · refine .inl ⟨hinitialized, impl.inputs, impl.dt env v.group.pollingInterval, ?_⟩
    rw [hpoll]
    show v.calls ++ _ = _
    rw [hcalls]
    rfl
  · refine .inr (.inl ⟨hinitialized, hcreates, ?_⟩)
    rw [hpoll]
    exact hcalls
  · refine .inr (.inr (.inl ⟨hcreates, hrefused, ?_⟩))
    rw [hpoll]
    show v.calls ++ _ = _
    rw [hcalls]
    rfl
  · refine .inr (.inr (.inr ⟨hcreates, hpositive, impl.address, (impl.running env).inputs,
      (impl.running env).dt env v.group.pollingInterval, ?_⟩))
    have hhandle : (impl.running env).handle = env.create impl.programSource := by
      rw [running_eq]
      rfl
    rw [hpoll, ← hhandle]
    show v.calls ++ _ = _
    rw [hcalls]
    rfl

/-- A poll steps no program but the one set last. -/
theorem stepsLast_poll (hprotocol : v.group.protocol = .softPlc) (hcalls : v.calls = [])
    (h : v.group.Tracked p) (env : Env V) : StepsLast p (v.processTagGroup env).calls := by
  have hnone : ∀ {calls : List (LibCall V)}, (∀ handle inputs dt, .softStep handle inputs dt ∉ calls) →
      StepsLast p calls := fun hno handle inputs dt hmem => absurd hmem (hno handle inputs dt)
  unfold Visit.processTagGroup
  split
  · rw [hcalls]
    exact hnone fun _ _ _ => List.not_mem_nil
  rw [hprotocol]
  simp only
  have h := h hprotocol
  cases himpl : v.group.softPlcImpl with
  | none =>
    rw [processSoftPlcTagGroup_none env.softPlc himpl, hcalls]
    exact hnone fun _ _ _ => List.not_mem_nil
  | some impl =>
    rw [himpl] at h
    rcases processSoftPlcTagGroup_calls env.softPlc himpl hcalls with
      ⟨hinitialized, inputs, dt, hmade⟩ | ⟨-, -, hmade⟩ | ⟨-, -, hmade⟩ |
      ⟨hcreates, -, address, inputs, dt, hmade⟩
    · obtain ⟨-, hsource, hcreated⟩ := h.runs hinitialized
      rw [hmade]
      intro handle inputs' dt' hmem
      cases List.mem_singleton.mp hmem
      exact ⟨_, hsource, hcreated⟩
    · rw [hmade]
      exact hnone fun _ _ _ => List.not_mem_nil
    · rw [hmade]
      exact hnone fun _ _ _ hmem => nomatch List.mem_singleton.mp hmem
    · rw [hmade]
      intro handle inputs' dt' hmem
      have hstep : LibCall.softStep handle inputs' dt' =
          .softStep (env.softPlc.create impl.programSource) inputs dt := by
        simpa only [List.mem_cons, reduceCtorEq, List.not_mem_nil, false_or, or_false] using hmem
      cases hstep
      exact ⟨_, h.some_of_creates hcreates, rfl⟩

/-- At the first poll after a program is set that compiles, with a bundle that loads, the program is
created and stepped if and only if there is no error and there is a source. -/
theorem createsAndSteps_iff (hprotocol : v.group.protocol = .softPlc) (hcalls : v.calls = [])
    (h : v.group.Tracked p) {source : CStr} (hpending : p.pending = true)
    (hsource : p.source = some source) {env : Env V}
    (hbundle : (env.softPlc.bundle v.group.gateway).any env.softPlc.loadBundle = true)
    (hcompiles : 0 < env.softPlc.create source) :
    CreatesAndSteps env.softPlc source (v.processTagGroup env).calls ↔
      v.group.hasError = false ∧ source ≠ [] := by
  have h := h hprotocol
  cases himpl : v.group.softPlcImpl with
  | none =>
    rw [himpl] at h
    cases hsource.symm.trans h
  | some impl =>
    rw [himpl] at h
    have hset : impl.programSource = source := by
      rw [h.source, hsource]
      rfl
    have hinitialized : impl.initialized = false := by
      cases hyes : impl.initialized with
      | false => rfl
      | true => exact absurd ((h.runs hyes).1.symm.trans hpending) Bool.false_ne_true
    unfold Visit.processTagGroup
    rw [hprotocol]
    cases herror : v.group.hasError with
    | true =>
      rw [if_pos rfl, hcalls]
      refine iff_of_false ?_ fun hno => nomatch hno.1
      rintro ⟨_, _, _, hno⟩
      cases hno
    | false =>
      rw [if_neg Bool.false_ne_true]
      have hcreates : impl.creates env.softPlc v.group.gateway = true ↔ source ≠ [] := by
        rw [SoftPlcTagGroupImpl.creates, hinitialized, hbundle, Bool.or_true, Bool.and_true,
          Bool.not_false, Bool.true_and, decide_eq_true_iff, hset]
      rcases processSoftPlcTagGroup_calls env.softPlc himpl hcalls with
        ⟨hyes, -⟩ | ⟨-, hno, hmade⟩ | ⟨-, hrefused, -⟩ | ⟨hyes, -, hmade⟩
      · cases hinitialized.symm.trans hyes
      · rw [hmade]
        refine iff_of_false ?_ fun hyes => ?_
        · rintro ⟨_, _, _, hnil⟩
          cases hnil
        · exact absurd (hno.symm.trans (hcreates.mpr hyes.2)) Bool.false_ne_true
      · rw [hset] at hrefused
        exact absurd hcompiles (Int.not_lt.mpr hrefused)
      · rw [hset] at hmade
        exact iff_of_true hmade ⟨rfl, hcreates.mp hyes⟩

end

/-! ## Runs -/

section
variable [Rtde.GodotVariant V]

/-- The first poll after a program is set that compiles creates it and steps it, and no poll steps
another than the one set last. The bundle loads. -/
def TakesEffect (x : Machine V × Programs) (l : Label V) : Prop :=
  ∀ y ∈ x.1.changed l, ∀ env, y.2.2 = .poll env → y.2.1.protocol = .softPlc →
    let calls := (y.2.1.after x.1.comms.next (.poll env)).calls
    (∀ source, (x.2 y.1).pending = true → (x.2 y.1).source = some source →
      (env.softPlc.bundle y.2.1.gateway).any env.softPlc.loadBundle = true →
      0 < env.softPlc.create source → CreatesAndSteps env.softPlc source calls) ∧
    StepsLast (x.2 y.1) calls

/-- The first poll after a program is set that compiles finds no error, and a program that is not
empty. -/
def FindsNoError (x : Machine V × Programs) (l : Label V) : Prop :=
  ∀ y ∈ x.1.changed l, ∀ env, y.2.2 = .poll env → y.2.1.protocol = .softPlc →
    ∀ source, (x.2 y.1).pending = true → (x.2 y.1).source = some source →
      (env.softPlc.bundle y.2.1.gateway).any env.softPlc.loadBundle = true →
      0 < env.softPlc.create source → y.2.1.hasError = false ∧ source ≠ []

/-- Every group with what is remembered of it. -/
def Remembered (x : Machine V × Programs) : Prop :=
  ∀ (name : CStr) (g : TagGroup V), x.1.comms.tagGroups[name]? = some g → g.Tracked (x.2 name)

omit [Rtde.GodotVariant V] in
/-- A group that is not there is not a soft PLC's. -/
theorem Remembered.group {x : Machine V × Programs} (h : Remembered x) (name : CStr) :
    (x.1.comms.group name).Tracked (x.2 name) := by
  unfold State.group
  cases hget : x.1.comms.tagGroups[name]? with
  | none => exact fun hno => nomatch hno
  | some g => exact h name g hget

theorem remembered_step {x : Machine V × Programs} (l : Label V) (h : Remembered x) :
    Remembered (Programs.step x l) := by
  obtain ⟨m, programs⟩ := x
  have hafter : ∀ name op, ((m.comms.group name).after m.comms.next op).group.Tracked
      ((programs name).note ((m.comms.group name).after m.comms.next op).calls op) :=
    fun name op => TagGroup.Tracked.apply (v := { group := m.comms.group name, next := m.comms.next })
      (h.group name) rfl op
  intro name g hget
  have hget : (m.step l).comms.tagGroups[name]? = some g := hget
  rw [(step_same m l).tagGroups] at hget
  show g.Tracked (Programs.note m l programs name)
  unfold Programs.note
  cases hchange : m.change l with
  | nothing =>
    rw [hchange] at hget
    exact h name g hget
  | one name' op =>
    rw [hchange] at hget
    rcases (getElem?_insert_iff _ _ _ _ _).mp hget with ⟨rfl, rfl⟩ | ⟨hne, hget⟩
    · simp only [if_true]
      exact hafter name op
    · simp only [if_neg (Ne.symm hne)]
      exact h name g hget
  | all op =>
    rw [hchange] at hget
    have hget : (m.comms.tagGroups.map fun _ g => (g.after m.comms.next op).group)[name]? =
      some g := hget
    rw [Std.ExtTreeMap.getElem?_map] at hget
    obtain ⟨g', hget', rfl⟩ := Option.map_eq_some_iff.mp hget
    rw [← State.group_of_some hget']
    exact hafter name op
  | register name' g' =>
    rw [hchange] at hget
    rcases (getElem?_insert_iff _ _ _ _ _).mp hget with ⟨rfl, rfl⟩ | ⟨hne, hget⟩
    · obtain ⟨_, _, _, _, _, rfl⟩ := Machine.change_register hchange
      simp only [if_true]
      exact fun _ => rfl
    · simp only [if_neg (Ne.symm hne)]
      exact h name g hget
  | clear =>
    rw [hchange] at hget
    cases Std.ExtTreeMap.getElem?_empty.symm.trans hget

omit [Rtde.GodotVariant V] in
theorem Remembered.changed {x : Machine V × Programs} (h : Remembered x) {l : Label V}
    {y : CStr × TagGroup V × GroupOp V} (hy : y ∈ x.1.changed l) : y.2.1.Tracked (x.2 y.1) := by
  rw [State.changed_group hy]
  exact h.group y.1

/-- In a run, the first poll after a program is set that compiles creates it and steps it, and no
poll steps another than the one set last, if and only if each such poll finds no error and a program
that is not empty. -/
theorem takes_effect_iff (ops : List (Label V)) :
    Meets Programs.step TakesEffect Programs.init ops ↔
      Meets Programs.step FindsNoError Programs.init ops := by
  have hinit : Remembered (Programs.init : Machine V × Programs) :=
    fun name g hget => (nomatch Std.ExtTreeMap.getElem?_empty.symm.trans hget)
  refine meets_iff_meets Programs.step (fun _ l h => remembered_step l h) ?_ hinit ops
  intro x l h
  refine forall₂_congr fun y hy => forall₂_congr fun env _ => forall_congr' fun hprotocol => ?_
  have htracked := h.changed hy
  refine (and_iff_left (stepsLast_poll (v := { group := y.2.1, next := x.1.comms.next })
    hprotocol rfl htracked env)).trans ?_
  refine forall₂_congr fun source hpending => forall₂_congr fun hsource hbundle =>
    forall_congr' fun hcompiles => ?_
  exact createsAndSteps_iff (v := { group := y.2.1, next := x.1.comms.next }) hprotocol rfl htracked
    hpending hsource hbundle hcompiles

end

/-- An engine that takes one source. -/
def takesY : Env Bool :=
  { softPlc := { create := fun source => if source = "y".toList then 1 else 0 } }

/-- A program that does not compile, the poll that finds so, one that does, and a poll. -/
def editedAgain : List (Label Bool) :=
  started "g".toList .softPlc "run".toList ++
    [.call (.setSoftPlcProgram "g".toList "x".toList)] ++ frameAndPoll 100000 takesY ++
    [.call (.setSoftPlcProgram "g".toList "y".toList)] ++ frameAndPoll 200000 takesY

/-- The second program is never created. -/
theorem second_edit_ignored : ¬ Meets Programs.step TakesEffect Programs.init editedAgain := by
  intro h
  have hpoll := (meets_iff_split Programs.step TakesEffect _ editedAgain).mp h
    (editedAgain.take 12) (.work {} takesY) [] rfl
  generalize hx : run Programs.step (Programs.init : Machine Bool × Programs)
    (editedAgain.take 12) = x at hpoll
  have hchanged : x.1.changed (.work {} takesY) =
      [("g".toList, x.1.comms.group "g".toList, .poll takesY)] := by
    rw [← hx]
    rfl
  have hcreates := (hpoll _ (by rw [hchanged]; exact List.mem_cons_self) takesY rfl
    (by rw [← hx]; decide)).1 "y".toList (by rw [← hx]; decide) (by rw [← hx]; decide) rfl
    (by decide)
  obtain ⟨address, inputs, dt, hcalls⟩ := hcreates
  have hnil : ((x.1.comms.group "g".toList).after x.1.comms.next (.poll takesY)).calls =
      [] := by
    rw [← hx]
    decide
  cases hnil.symm.trans hcalls

end OipComms.Backend
