import Mathlib.Algebra.Order.Field.Rat
import Mathlib.Tactic.Ring
import OipComms.Backend.History
import OipComms.Backend.Programs

/-!
# The time a program is given

A program advances by the time it is handed: a scan is handed what has passed in the physics since
the scan before, and the first scan after a compile is handed the polling interval. What comes
between two scans, pauses, frame hitches and polls that are late, is all in the next one.

So a program's clock does not drift: since it was compiled it was handed one interval and what has
passed in the physics since its first scan, but for what the rounding of each time to a `double` makes
of it, less than one part in `2 ^ 51` (`simulation_time`). A physics clock that shows zero frames at a
scan is the exception: zero stands for a program without a scan.
-/

namespace OipComms.Backend

open Rounding Run

variable {V : Type}

/-- The scans of the program that runs: how many, the physics frames of the first and the last, and
the time they were handed in all. -/
structure Scans where
  count : Nat := 0
  first : UInt64 := 0
  last : UInt64 := 0
  total : Rat := 0

/-- The times the scans among calls are handed. -/
def scanTimes (calls : List (LibCall V)) : List Rat :=
  calls.filterMap fun
    | .softStep _ _ dt => some dt
    | _ => none

/-- The scans after a poll at a physics frame that makes some calls. A program that is created begins
anew. -/
def Scans.note (scans : Scans) (physicsFrames : UInt64) (calls : List (LibCall V)) : Scans :=
  let scans := if (createdIn calls).isSome then {} else scans
  match scanTimes calls with
  | [] => scans
  | times =>
    { count := scans.count + times.length
      first := if scans.count = 0 then physicsFrames else scans.first
      last := physicsFrames
      total := scans.total + times.sum }

/-- The scans of each group's program. -/
def scanHistory [Rtde.GodotVariant V] : History V Scans where
  fresh := {}
  note g next op scans :=
    match op with
    | .poll env => scans.note env.softPlc.physicsFrames (g.after next (.poll env)).calls
    | .cleanup => {}
    | _ => scans

/-- If the step polls a group, then the physics runs at `ticksPerSecond` ticks a second, and has come
to a frame that is not zero and not before that of the group's last scan. -/
def PhysicsAdvances (ticksPerSecond : Int) (x : Machine V × (CStr → Scans)) (l : Label V) : Prop :=
  ∀ y ∈ x.1.changed l, ∀ env, y.2.2 = .poll env → env.softPlc.ticksPerSecond = ticksPerSecond ∧
    0 < env.softPlc.physicsFrames ∧ (x.2 y.1).last ≤ env.softPlc.physicsFrames

/-- What the world answers where the operation is a poll. -/
def GroupOp.answers : GroupOp V → Option (Env V)
  | .poll env => some env
  | _ => none

/-- Only a poll has answers. -/
theorem GroupOp.answers_eq_some {op : GroupOp V} {env : Env V} :
    op.answers = some env ↔ op = .poll env := by
  cases op <;> simp [GroupOp.answers]

instance (ticksPerSecond : Int) (x : Machine V × (CStr → Scans)) (l : Label V) :
    Decidable (PhysicsAdvances ticksPerSecond x l) :=
  decidable_of_iff (∀ y ∈ x.1.changed l, ∀ env ∈ y.2.2.answers,
      env.softPlc.ticksPerSecond = ticksPerSecond ∧ 0 < env.softPlc.physicsFrames ∧
        (x.2 y.1).last ≤ env.softPlc.physicsFrames) <|
    forall₂_congr fun _ _ => forall_congr' fun _ => imp_congr GroupOp.answers_eq_some Iff.rfl

/-- What has passed in the physics from the first scan to the last, in seconds. -/
def Scans.passed (scans : Scans) (ticksPerSecond : Int) : Rat :=
  ((scans.last.toNat : Rat) - scans.first.toNat) / ticksPerSecond

/-- The program was handed one interval and what has passed since its first scan, to one part in
`2 ^ 51`. -/
def Scans.InTime (scans : Scans) (ticksPerSecond pollingInterval : Int) : Prop :=
  Within (1 / 2 ^ 51) (|(pollingInterval / 1000 : Rat)| + scans.passed ticksPerSecond) scans.total
    (pollingInterval / 1000 + scans.passed ticksPerSecond)

/-! ## A group's program -/

/-- What a program that runs has to do with its scans. -/
structure Scans.Of (scans : Scans) (ticksPerSecond pollingInterval : Int)
    (impl : SoftPlcTagGroupImpl V) : Prop where
  some : 0 < scans.count
  last : impl.lastPhysFrame = scans.last
  positive : 0 < scans.last
  inTime : scans.InTime ticksPerSecond pollingInterval

/-- What every group keeps with its scans. -/
def Timed (ticksPerSecond : Int) (g : TagGroup V) (scans : Scans) : Prop :=
  g.protocol = .softPlc → ∀ impl, g.softPlcImpl = some impl → impl.initialized = true →
    scans.Of ticksPerSecond g.pollingInterval impl

section
variable [Rtde.GodotVariant V]

/-- Nothing that happens to a soft PLC group changes its interval. -/
theorem softPlc_pollingInterval {v : Visit V} (hprotocol : v.group.protocol = .softPlc)
    (op : GroupOp V) : (v.apply op).group.pollingInterval = v.group.pollingInterval := by
  cases op with
  | registerTag tagName ty =>
    simp only [Visit.apply, Visit.registerTag, hprotocol]
    split
    · rfl
    · rcases v.softPlc_cases with ⟨-, hsame⟩ | ⟨-, hnew⟩
      · simp only [Visit.withGroup, hsame]
      · rw [hnew]
        rfl
  | poll env =>
    simp only [Visit.apply, Visit.processTagGroup, hprotocol]
    split
    · rfl
    · obtain ⟨_, _, hgroup⟩ := v.processSoftPlcTagGroup_group env.softPlc
      rw [hgroup]
  | write env w =>
    simp only [Visit.apply, Visit.processWrite, hprotocol]
    cases instructionType w.instruction with
    | none => rfl
    | some ty =>
      obtain ⟨_, hgroup⟩ := softPlcSet_group v.group w.tagName w.value
      simp only [Visit.withGroup, hgroup]
  | read tagName ty =>
    simp only [Visit.apply, Visit.withGroup]
    rcases readTag_cases v.group tagName ty with hread | hread
    · rw [hread]
    · rw [hread]
      rfl
  | message topic payload =>
    simp only [Visit.apply, Visit.withGroup]
    rcases mqttMessageArrived_cases v.group topic payload with hsame | ⟨_, _, -, -, hnew⟩
    · rw [hsame]
    · rw [hnew]
  | cleanup =>
    simp only [Visit.apply, Visit.cleanup, Visit.release, hprotocol]
    rfl
  | setSoftPlcProgram source | setSoftPlcWatchEnabled enabled =>
    simp only [Visit.apply, Visit.setSoftPlcProgram, Visit.setSoftPlcWatchEnabled]
    rcases v.softPlc_cases with ⟨-, hsame⟩ | ⟨-, hnew⟩
    · simp only [Visit.withGroup, hsame]
    · rw [hnew]
      rfl
  | frame delta startupTimer => rfl

end

/-- An object with the same last frame has the same scans. -/
theorem Scans.Of.same {scans : Scans} {ticksPerSecond pollingInterval : Int}
    {impl impl' : SoftPlcTagGroupImpl V} (h : scans.Of ticksPerSecond pollingInterval impl)
    (hlast : impl'.lastPhysFrame = impl.lastPhysFrame) :
    scans.Of ticksPerSecond pollingInterval impl' :=
  ⟨h.some, hlast.trans h.last, h.positive, h.inTime⟩

/-- The first scan of a program is handed the interval. -/
theorem scans_first (scans : Scans) {env : SoftPlcEnv V} (hpositive : 0 < env.physicsFrames)
    (ticksPerSecond pollingInterval : Int) {impl : SoftPlcTagGroupImpl V}
    (hzero : impl.lastPhysFrame = 0) (r : Resource) (source : CStr) (handle : Int) :
    (scans.note env.physicsFrames
      ([.acquire r, .softCreate source handle] ++ (impl.scan env pollingInterval).2)).Of
      ticksPerSecond pollingInterval (impl.scan env pollingInterval).1 := by
  have hdt : impl.dt env pollingInterval = double (pollingInterval / 1000) := by
    rw [SoftPlcTagGroupImpl.dt, if_pos (.inl hzero)]
  have hcreated : createdIn ([.acquire r, .softCreate source handle] ++
      (impl.scan env pollingInterval).2) = some (source, handle) := rfl
  have htimes : scanTimes ([.acquire r, .softCreate source handle] ++
      (impl.scan env pollingInterval).2) = [impl.dt env pollingInterval] := rfl
  rw [Scans.note, hcreated, htimes, hdt]
  refine ⟨Nat.one_pos, rfl, hpositive, ?_⟩
  simp only [Scans.InTime, Scans.passed, Option.isSome_some, if_true, List.sum_singleton, zero_add,
    sub_self, zero_div, add_zero]
  exact (within_roundBits 53 _).mono (by norm_num) (abs_nonneg _)

/-- A later scan is handed what has passed since the one before. -/
theorem scans_next {scans : Scans} {env : SoftPlcEnv V} {ticksPerSecond : Int}
    (hticks : 0 < ticksPerSecond) (hsame : env.ticksPerSecond = ticksPerSecond)
    (hlate : scans.last ≤ env.physicsFrames) {pollingInterval : Int}
    {impl : SoftPlcTagGroupImpl V} (h : scans.Of ticksPerSecond pollingInterval impl) :
    (scans.note env.physicsFrames (impl.scan env pollingInterval).2).Of
      ticksPerSecond pollingInterval (impl.scan env pollingInterval).1 := by
  have hpositive := UInt64.lt_iff_toNat_lt.mp h.positive
  have hle := UInt64.le_iff_toNat_le.mp hlate
  have hnotFirst : ¬ (impl.lastPhysFrame = 0 ∨ env.ticksPerSecond ≤ 0) := by
    rintro (hzero | hstopped)
    · rw [← h.last, hzero] at hpositive
      exact Nat.lt_irrefl _ hpositive
    · rw [hsame] at hstopped
      exact absurd hticks (Int.not_lt.mpr hstopped)
  have hdt : impl.dt env pollingInterval =
      double (double ((env.physicsFrames.toNat : Rat) - scans.last.toNat) / ticksPerSecond) := by
    rw [SoftPlcTagGroupImpl.dt, if_neg hnotFirst, h.last, hsame, UInt64.toNat_sub_of_le _ _ hlate,
      Nat.cast_sub hle]
  have hcreated : createdIn (impl.scan env pollingInterval).2 = none := rfl
  have htimes : scanTimes (impl.scan env pollingInterval).2 = [impl.dt env pollingInterval] := rfl
  have hcount : scans.count ≠ 0 := Nat.pos_iff_ne_zero.mp h.some
  rw [Scans.note, hcreated, htimes, hdt]
  simp only [Option.isSome_none, Bool.false_eq_true, if_false, if_neg hcount]
  refine ⟨Nat.add_pos_left h.some _, rfl, UInt64.lt_iff_toNat_lt.mpr (hpositive.trans_le hle), ?_⟩
  have hpassed : (0 : Rat) ≤ (env.physicsFrames.toNat : Rat) - scans.last.toNat :=
    sub_nonneg.mpr (Nat.cast_le.mpr hle)
  have hscan : Within (1 / 2 ^ 51)
      (((env.physicsFrames.toNat : Rat) - scans.last.toNat) / ticksPerSecond)
      (double (double ((env.physicsFrames.toNat : Rat) - scans.last.toNat) / ticksPerSecond))
      (((env.physicsFrames.toNat : Rat) - scans.last.toNat) / ticksPerSecond) := by
    have hwithin := within_roundBits_div 53 ((env.physicsFrames.toNat : Rat) - scans.last.toNat)
      (Int.cast_pos.mpr hticks)
    rw [abs_of_nonneg hpassed] at hwithin
    exact hwithin.mono (by norm_num) (div_nonneg hpassed (Int.cast_nonneg hticks.le))
  -- what passes adds up, from the first scan to the last before and on to this one
  have hsum : ((env.physicsFrames.toNat : Rat) - scans.first.toNat) / ticksPerSecond =
      scans.passed ticksPerSecond +
        ((env.physicsFrames.toNat : Rat) - scans.last.toNat) / ticksPerSecond := by
    rw [Scans.passed, ← add_div]
    ring
  have hwithin := h.inTime.add hscan
  simp only [Scans.InTime, Scans.passed, List.sum_singleton, hsum]
  rw [Scans.passed, add_assoc, add_assoc] at hwithin
  exact hwithin

/-- Calls without a scan leave the scans. -/
theorem note_nothing (scans : Scans) (physicsFrames : UInt64) {calls : List (LibCall V)}
    (hcreated : createdIn calls = none) (htimes : scanTimes calls = []) :
    scans.note physicsFrames calls = scans := by
  rw [Scans.note, hcreated, htimes]
  rfl

/-- A poll scans the program, or leaves none that runs. -/
theorem timed_poll {ticksPerSecond : Int} (hticks : 0 < ticksPerSecond) {v : Visit V}
    {scans : Scans} {impl : SoftPlcTagGroupImpl V} (himpl : v.group.softPlcImpl = some impl)
    (hcalls : v.calls = []) {env : SoftPlcEnv V} (hsame : env.ticksPerSecond = ticksPerSecond)
    (hpositive : 0 < env.physicsFrames) (hlate : scans.last ≤ env.physicsFrames)
    (h : impl.initialized = true → scans.Of ticksPerSecond v.group.pollingInterval impl) :
    ∃ impl', (v.processSoftPlcTagGroup env).group.softPlcImpl = some impl' ∧
      (impl'.initialized = true →
        (scans.note env.physicsFrames (v.processSoftPlcTagGroup env).calls).Of ticksPerSecond
          v.group.pollingInterval impl') := by
  rcases processSoftPlcTagGroup_cases env himpl with
    ⟨hinitialized, hpoll⟩ | ⟨hinitialized, -, engine, hasError, -, hpoll⟩ |
    ⟨hcreates, -, hpoll⟩ | ⟨-, -, hpoll⟩
  · rw [hpoll]
    refine ⟨(impl.scan env v.group.pollingInterval).1, rfl, fun _ => ?_⟩
    show (scans.note _ (v.calls ++ ([] ++ (impl.scan env v.group.pollingInterval).2))).Of _ _ _
    rw [hcalls, List.nil_append, List.nil_append]
    exact scans_next hticks hsame hlate (h hinitialized)
  · rw [hpoll]
    exact ⟨{ impl with engine := engine }, rfl, fun hyes =>
      absurd (hinitialized.symm.trans hyes) Bool.false_ne_true⟩
  · have hinitialized := impl.not_initialized_of_creates hcreates
    rw [hpoll]
    exact ⟨impl.refused env, rfl, fun hyes =>
      absurd (hinitialized.symm.trans hyes) Bool.false_ne_true⟩
  · rw [hpoll]
    refine ⟨((impl.running env).scan env v.group.pollingInterval).1, rfl, fun _ => ?_⟩
    have hzero : (impl.running env).lastPhysFrame = 0 := by
      rw [running_eq]
    show (scans.note _ (v.calls ++ ([.acquire _, .softCreate _ _] ++
      ((impl.running env).scan env v.group.pollingInterval).2))).Of _ _ _
    rw [hcalls, List.nil_append]
    exact scans_first scans hpositive ticksPerSecond v.group.pollingInterval hzero _ _ _

/-- A write to a tag leaves the rest of the object. -/
theorem softPlcSet_time {g : TagGroup V} {tagName : CStr} {value : V}
    {impl' : SoftPlcTagGroupImpl V} (h : (g.softPlcSet tagName value).softPlcImpl = some impl') :
    ∃ impl, g.softPlcImpl = some impl ∧ impl'.initialized = impl.initialized ∧
      impl'.lastPhysFrame = impl.lastPhysFrame := by
  unfold TagGroup.softPlcSet at h
  split at h
  · rename_i hnone
    rw [hnone] at h
    cases h
  rename_i impl himpl
  refine ⟨impl, himpl, ?_⟩
  split at h
  · obtain rfl := Option.some.inj (himpl.symm.trans h)
    exact ⟨rfl, rfl⟩
  split at h
  · obtain rfl := Option.some.inj (himpl.symm.trans h)
    exact ⟨rfl, rfl⟩
  · obtain rfl := Option.some.inj h
    exact ⟨rfl, rfl⟩

section
variable [Rtde.GodotVariant V]

/-- What happens to a group keeps the time of its program. -/
theorem Timed.after {ticksPerSecond : Int} (hticks : 0 < ticksPerSecond) {g : TagGroup V}
    {scans : Scans} (h : Timed ticksPerSecond g scans) (next : Nat) (op : GroupOp V)
    (hadvances : ∀ env, op = .poll env → env.softPlc.ticksPerSecond = ticksPerSecond ∧
      0 < env.softPlc.physicsFrames ∧ scans.last ≤ env.softPlc.physicsFrames) :
    Timed ticksPerSecond (g.after next op).group (scanHistory.note g next op scans) := by
  generalize hv : ({ group := g, next := next } : Visit V) = v at *
  have hgroup : v.group = g := by rw [← hv]
  have hafter : g.after next op = v.apply op := by rw [TagGroup.after, hv]
  rw [hafter]
  intro hprotocol impl' himpl' hinitialized'
  rw [v.apply_protocol op] at hprotocol
  have h := h (hgroup ▸ hprotocol)
  rw [← hgroup] at h
  rw [softPlc_pollingInterval hprotocol op]
  rw [softPlcImpl_apply hprotocol op] at himpl'
  -- the object that is there, or a new one that is not compiled
  have hobject : ∀ impl'' : SoftPlcTagGroupImpl V, impl''.initialized = v.softPlc.1.initialized →
      impl''.lastPhysFrame = v.softPlc.1.lastPhysFrame → impl''.initialized = true →
      scans.Of ticksPerSecond v.group.pollingInterval impl'' := by
    intro impl'' hinitialized hlast hyes
    rcases v.softPlc_cases with ⟨hsome, -⟩ | ⟨-, hnew⟩
    · exact (h _ hsome (hinitialized ▸ hyes)).same hlast
    · rw [hinitialized, hnew] at hyes
      cases hyes
  cases op with
  | registerTag tagName ty =>
    simp only at himpl'
    split at himpl'
    · exact h impl' himpl' hinitialized'
    · obtain rfl := Option.some.inj himpl'
      exact hobject _ rfl rfl hinitialized'
  | poll env =>
    obtain ⟨hsame, hpositive, hlate⟩ := hadvances env rfl
    show (scans.note env.softPlc.physicsFrames (g.after next (.poll env)).calls).Of _ _ _
    rw [hafter]
    have hcalls : v.calls = [] := by rw [← hv]
    simp only at himpl'
    split at himpl'
    · rename_i herror
      have hnothing : v.apply (.poll env) = v := if_pos herror
      rw [hnothing, hcalls, note_nothing scans _ rfl rfl]
      exact h impl' himpl' hinitialized'
    · rename_i hok
      have hpoll : v.apply (.poll env) = v.processSoftPlcTagGroup env.softPlc := by
        simp only [Visit.apply, Visit.processTagGroup, if_neg hok, hprotocol]
      rw [hpoll]
      cases himpl : v.group.softPlcImpl with
      | none =>
        rw [processSoftPlcTagGroup_none env.softPlc himpl, himpl] at himpl'
        cases himpl'
      | some impl =>
        obtain ⟨impl'', hsome, htimed⟩ := timed_poll hticks himpl hcalls hsame hpositive hlate
          (h impl himpl)
        obtain rfl := Option.some.inj (hsome.symm.trans himpl')
        exact htimed hinitialized'
  | write env w =>
    simp only at himpl'
    split at himpl'
    · obtain ⟨impl, himpl, hinitialized, hlast⟩ := softPlcSet_time himpl'
      exact (h impl himpl (hinitialized ▸ hinitialized')).same hlast
    · exact h impl' himpl' hinitialized'
  | setSoftPlcProgram source =>
    obtain rfl := Option.some.inj himpl'
    cases hinitialized'
  | setSoftPlcWatchEnabled enabled =>
    obtain rfl := Option.some.inj himpl'
    exact hobject _ rfl rfl hinitialized'
  | cleanup => cases himpl'
  | read tagName ty | message topic payload | frame delta startupTimer =>
    exact h impl' himpl' hinitialized'

/-- In every state of a run in which the physics advances at a constant rate, each program that runs
was handed one polling interval and what has passed in the physics from its first scan to its last,
but for the rounding of the times. -/
theorem simulation_time (ticksPerSecond : Int) (hticks : 0 < ticksPerSecond)
    (ops : List (Label V))
    (h : Meets scanHistory.step (PhysicsAdvances ticksPerSecond) scanHistory.init ops) :
    Along scanHistory.step (fun x => ∀ (name : CStr) (g : TagGroup V) (impl : SoftPlcTagGroupImpl V),
      x.1.comms.tagGroups[name]? = some g → g.protocol = .softPlc → g.softPlcImpl = some impl →
      impl.initialized = true →
        0 < (x.2 name).count ∧ (x.2 name).InTime ticksPerSecond g.pollingInterval)
      scanHistory.init ops := by
  have hfresh : ∀ g : TagGroup V, g.softPlcImpl = none → Timed ticksPerSecond g {} := by
    intro g hnone _ impl himpl
    rw [hnone] at himpl
    cases himpl
  refine (along_of_meets scanHistory.step (J := History.Every (Timed ticksPerSecond))
    (fun x l hx hadvances => ?_) (History.every_init (hfresh {} rfl)) h).mono _
    fun x hx name g impl hget => ?_
  · refine History.every_step hx (hfresh {} rfl) (fun _ _ _ _ _ => hfresh _ rfl) fun y hy hP => ?_
    exact hP.after hticks x.1.comms.next y.2.2 fun env hpoll => hadvances y hy env hpoll
  · intro hprotocol himpl hinitialized
    have htimed := hx name
    rw [State.group_of_some hget] at htimed
    have hof := htimed hprotocol impl himpl hinitialized
    exact ⟨hof.some, hof.inTime⟩

end

/-- A poll at a physics frame. -/
def physicsAt (physicsFrames : UInt64) : Env Bool :=
  { softPlc := { physicsFrames := physicsFrames } }

/-- A program is set and scanned, and scanned again after a pause. -/
def twoScans : List (Label Bool) :=
  started "g".toList .softPlc "run".toList ++
    [.call (.setSoftPlcProgram "g".toList "x".toList)] ++ frameAndPoll 100000 (physicsAt 10) ++
    frameAndPoll 9000000 (physicsAt 540)

/-- A program that is scanned twice. -/
theorem simulation_time_twoScans :
    Along scanHistory.step (fun x => ∀ (name : CStr) (g : TagGroup Bool)
      (impl : SoftPlcTagGroupImpl Bool), x.1.comms.tagGroups[name]? = some g →
      g.protocol = .softPlc → g.softPlcImpl = some impl → impl.initialized = true →
        0 < (x.2 name).count ∧ (x.2 name).InTime 60 g.pollingInterval) scanHistory.init twoScans :=
  simulation_time 60 (by decide) twoScans (by decide +kernel)

end OipComms.Backend
