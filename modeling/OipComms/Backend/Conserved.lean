import Mathlib.Data.Multiset.OrderedMonoid
import OipComms.Backend.Housed
import OipComms.Backend.Resources

/-!
# What is handed out and given back

In a run, what the groups got, from the libraries or with `new`, is what can be reached from them and
what was given back, unless a step loses something: a group that holds something is registered over, a
poll compiles a program in the place of another, or the groups are cleared while one of another
protocol has a soft PLC object. A tag, a client or an object is given back by the call of its destroy
or delete, whatever the library then does.
-/

namespace OipComms.Backend

open Comms (Protocol TagType)
open Ledger Run Sweep

variable {V : Type}

/-! ## Whatever happens to a group -/

/-- The poll compiles a program in the place of another. -/
def TagGroup.Recompiles (g : TagGroup V) : GroupOp V → Prop
  | .poll env => g.protocol = .softPlc ∧ g.hasError = false ∧ ∃ impl, g.softPlcImpl = some impl ∧
    0 < impl.handle ∧ impl.creates env.softPlc g.gateway = true
  | _ => False

/-- What is lost by what happens to a group. -/
def TagGroup.lost (g : TagGroup V) : GroupOp V → Multiset Resource
  | .poll env =>
    if g.protocol = .softPlc ∧ g.hasError = false then
      (g.softPlcImpl.map (SoftPlcTagGroupImpl.lost env.softPlc g.gateway)).getD 0
    else 0
  | _ => 0

/-- A group loses something only where a program is compiled in the place of another. -/
theorem lost_eq_zero_iff (g : TagGroup V) (op : GroupOp V) :
    g.lost op = 0 ↔ ¬ g.Recompiles op := by
  cases op with
  | poll env =>
    simp only [TagGroup.lost, TagGroup.Recompiles]
    by_cases hpolled : g.protocol = .softPlc ∧ g.hasError = false
    · rw [if_pos hpolled]
      simp only [hpolled, true_and]
      cases himpl : g.softPlcImpl with
      | none => simp only [Option.map_none, Option.getD_none, reduceCtorEq, false_and,
          exists_false, not_false_eq_true]
      | some impl =>
        simp only [Option.map_some, Option.getD_some, Option.some.injEq, exists_eq_left',
          SoftPlcTagGroupImpl.lost, SoftPlcTagGroupImpl.program]
        by_cases hcreates : impl.creates env.softPlc g.gateway = true
        · by_cases hhandle : 0 < impl.handle
          · simp only [hcreates, hhandle, if_true, and_self, not_true_eq_false,
              Multiset.singleton_ne_zero]
          · simp only [hcreates, hhandle, if_true, if_false, false_and, not_false_eq_true]
        · simp only [hcreates, if_false, and_false, not_false_eq_true, Bool.false_eq_true]
    · rw [if_neg hpolled, ← and_assoc]
      simp only [hpolled, false_and, not_false_eq_true]
  | registerTag _ _ | write _ _ | read _ _ | message _ _ | setSoftPlcProgram _
  | setSoftPlcWatchEnabled _ | frame _ _ | cleanup =>
    simp only [TagGroup.lost, TagGroup.Recompiles, not_false_eq_true]

/-- A poll loses what its group then loses. -/
theorem loses_processTagGroup (v : Visit V) (env : Env V) :
    v.Loses (v.processTagGroup env) (v.group.lost (.poll env)) := by
  unfold Visit.processTagGroup
  by_cases herror : v.group.hasError = true
  · rw [if_pos herror, TagGroup.lost, if_neg (fun hno => by rw [herror] at hno; cases hno.2)]
    exact Visit.Accounts.refl v
  · rw [if_neg herror, TagGroup.lost]
    cases hprotocol : v.group.protocol with
    | opcUa => exact accounts_processOpcUaTagGroup v env.ua
    | ads => exact accounts_processAdsTagGroup v env.ads
    | rtde => exact accounts_processRtdeTagGroup v env.rtde
    | mqtt => exact accounts_processMqttTagGroup v env.mqtt
    | softPlc =>
      rw [if_pos ⟨rfl, Bool.eq_false_iff.mpr herror⟩]
      exact loses_processSoftPlcTagGroup v env.softPlc
    | s7 | plctag name => exact accounts_processPlcTagGroup v env.plc

/-- A tag that is registered is accounted for. -/
theorem accounts_registerTag (v : Visit V) (tagName : CStr) (ty : TagType)
    (hhas : v.group.has tagName = false) : v.Accounts (v.registerTag tagName ty).2 := by
  have hplc : isPlc v.group.protocol = true → v.Accounts (v.withGroup { v.group with
      plcTags := v.group.plcTags.insert tagName (v.group.protocol.newTag ty) }) := by
    intro hprotocol
    refine accounts_insertPlcTag v ?_
    unfold TagGroup.has at hhas
    cases hp : v.group.protocol with
    | s7 | plctag name =>
      simp only [hp] at hhas
      rw [Std.ExtTreeMap.getElem?_eq_none_of_contains_eq_false hhas]
      rfl
    | opcUa | ads | rtde | mqtt | softPlc =>
      rw [hp] at hprotocol
      cases hprotocol
  unfold Visit.registerTag
  cases hprotocol : v.group.protocol with
  | opcUa => exact .of_same rfl rfl
  | ads =>
    exact (accounts_getAds v).trans (accounts_ads (List.append_nil _).symm rfl (.of_eq rfl))
  | rtde => exact accounts_rtdeRegisterTag v tagName
  | mqtt =>
    simp only
    split
    · exact .refl v
    · exact (accounts_getMqtt v).trans (accounts_mqtt (List.append_nil _).symm rfl (.of_eq rfl))
  | softPlc => exact accounts_getSoftPlc_with v rfl rfl
  | s7 | plctag name =>
    rw [hprotocol] at hplc
    exact hplc rfl

/-- A write is accounted for. -/
theorem accounts_processWrite [Rtde.GodotVariant V] (v : Visit V) (env : WriteEnv)
    (w : Comms.WriteRequest V) : v.Accounts (v.processWrite env w) := by
  have hplc : v.Accounts (v.withGroup (v.group.plcTagSet env.written w.tagName)) :=
    accounts_insertPlcTag v rfl
  unfold Visit.processWrite
  split
  · exact accounts_opcTagSet v env.ua w.tagName _
  · exact accounts_rtdeTagSet v w.tagName w.value
  · exact accounts_softPlcSet v w.tagName w.value
  · exact hplc
  · exact hplc
  all_goals exact .refl v

/-- The programs of an object are the one in `handle`. -/
def SoftPlcTagGroupImpl.Tight (impl : SoftPlcTagGroupImpl V) : Prop :=
  impl.created = if 0 < impl.handle then [impl.handle] else []

/-- The same of the object of a group. -/
def TagGroup.Tight (g : TagGroup V) : Prop :=
  ∀ impl, g.softPlcImpl = some impl → impl.Tight

/-- A soft PLC object that is deleted gives back all that it holds. -/
theorem SoftPlcTagGroupImpl.Tight.frees {impl : SoftPlcTagGroupImpl V} (h : impl.Tight) :
    impl.frees = impl.holds := by
  rw [SoftPlcTagGroupImpl.frees, h, SoftPlcTagGroupImpl.holds]
  split
  · rfl
  · rfl

/-- A clean-up gives back what the protocol has the group hold. -/
theorem accounts_release {v : Visit V} (h : v.group.Tight) : v.Accounts v.release := by
  have hgive : ∀ rs : List Resource, Balanced (rs : Multiset Resource)
      (acquired (releases rs : List (LibCall V))) 0 (released (releases rs : List (LibCall V))) := by
    intro rs
    rw [acquired_releases, released_releases]
    exact add_comm _ _
  have hplc : v.Accounts ((v.withGroup { v.group with plcTags := ∅ }).makes
      (releases (v.group.plcTags.toList.flatMap fun x => plcTagHolds v.group.protocol x.2))) := by
    refine accounts_plc rfl rfl ?_
    have hheld : v.group.plcHolds = (v.group.plcTags.toList.flatMap fun x =>
        plcTagHolds v.group.protocol x.2 : List Resource) := by
      rw [TagGroup.plcHolds, total]
      induction v.group.plcTags.toList with
      | nil => rfl
      | cons x l ih => rw [List.map_cons, List.sum_cons, ih, List.flatMap_cons, Multiset.coe_add]
    rw [hheld]
    exact hgive _
  unfold Visit.release
  cases hprotocol : v.group.protocol with
  | opcUa => exact accounts_ua rfl ⟨_, _, _, _, _, rfl⟩ (hgive _)
  | ads => exact accounts_ads rfl rfl (hgive _)
  | rtde => exact accounts_rtde rfl rfl (hgive _)
  | mqtt => exact accounts_mqtt rfl rfl (hgive _)
  | softPlc =>
    have hfrees : v.group.softPlcImpl.toList.flatMap SoftPlcTagGroupImpl.frees =
        v.group.softPlcImpl.toList.flatMap SoftPlcTagGroupImpl.holds := by
      cases himpl : v.group.softPlcImpl with
      | none => rfl
      | some impl =>
        rw [Option.toList_some, List.flatMap_singleton, List.flatMap_singleton, (h impl himpl).frees]
    rw [hfrees]
    exact accounts_softPlc rfl rfl (hgive _)
  | s7 | plctag name =>
    rw [hprotocol] at hplc
    exact hplc

/-- Whatever happens to a group, nothing is lost but what a poll compiles another program in the
place of. -/
theorem loses_apply [Rtde.GodotVariant V] {v : Visit V} (h : v.group.Tight) (op : GroupOp V) :
    v.Loses (v.apply op) (v.group.lost op) := by
  cases op with
  | registerTag tagName ty =>
    show v.Accounts (if _ then v else _)
    split
    · exact .refl v
    · rename_i hhas
      exact accounts_registerTag v tagName ty (Bool.eq_false_iff.mpr hhas)
  | poll env => exact loses_processTagGroup v env
  | write env w => exact accounts_processWrite v env w
  | read tagName ty =>
    show v.Accounts (v.withGroup (v.group.readTag tagName ty))
    rcases readTag_cases v.group tagName ty with hread | hread
    · rw [hread]
      exact .refl v
    · rw [hread]
      exact .of_same rfl rfl
  | message topic payload => exact accounts_mqttMessageArrived v topic payload
  | setSoftPlcProgram source => exact accounts_getSoftPlc_with v rfl rfl
  | setSoftPlcWatchEnabled enabled => exact accounts_getSoftPlc_with v rfl rfl
  | frame delta startupTimer => exact Visit.Accounts.of_same rfl rfl
  | cleanup => exact (accounts_release h).trans (.of_same rfl rfl)

/-- An object whose handle names no program has none. -/
theorem SoftPlcTagGroupImpl.Tight.no_programs {impl : SoftPlcTagGroupImpl V} (h : impl.Tight)
    (hhandle : ¬ 0 < impl.handle) : (impl.engine.getD {}).programs = [] := by
  rw [SoftPlcTagGroupImpl.Tight, if_neg hhandle, SoftPlcTagGroupImpl.created] at h
  cases hengine : impl.engine with
  | none => rfl
  | some engine =>
    rw [hengine] at h
    exact h

/-- A poll that does not put a program in the place of another leaves the one in `handle`. -/
theorem tight_processSoftPlcTagGroup {v : Visit V} (h : v.group.Tight) {env : SoftPlcEnv V}
    (hkeeps : ∀ impl, v.group.softPlcImpl = some impl →
      impl.creates env v.group.gateway = true → ¬ 0 < impl.handle) :
    (v.processSoftPlcTagGroup env).group.Tight := by
  intro impl' himpl'
  cases himpl : v.group.softPlcImpl with
  | none =>
    rw [processSoftPlcTagGroup_none env himpl] at himpl'
    cases himpl.symm.trans himpl'
  | some impl =>
    have htight := h impl himpl
    rcases processSoftPlcTagGroup_cases env himpl with ⟨-, hpoll⟩ |
      ⟨-, -, engine, hasError, hcreated, hpoll⟩ | ⟨hcreates, hrefused, hpoll⟩ |
      ⟨hcreates, hcreated, hpoll⟩
    · rw [hpoll] at himpl'
      cases himpl'
      exact htight
    · rw [hpoll] at himpl'
      cases himpl'
      exact hcreated.trans htight
    · rw [hpoll] at himpl'
      cases himpl'
      have hnone := htight.no_programs (hkeeps impl himpl hcreates)
      exact hnone.trans (if_neg (Int.not_lt.mpr hrefused)).symm
    · rw [hpoll] at himpl'
      cases himpl'
      have hnone := htight.no_programs (hkeeps impl himpl hcreates)
      have htight' : (impl.running env).Tight := by
        rw [running_eq, SoftPlcTagGroupImpl.Tight, SoftPlcTagGroupImpl.created]
        simp only [SoftPlcTagGroupImpl.refused, Option.map_some, Option.getD_some, hnone,
          List.nil_append]
        exact (if_pos hcreated).symm
      exact htight'

/-- A write leaves the program of a soft PLC object. -/
theorem tight_softPlcSet {g : TagGroup V} (h : g.Tight) (tagName : CStr) (value : V) :
    (g.softPlcSet tagName value).Tight := by
  unfold TagGroup.softPlcSet
  split
  · exact h
  rename_i impl himpl
  split
  · exact h
  split
  · exact h
  · intro impl' himpl'
    cases himpl'
    exact h impl himpl

/-- Nothing is lost, and the programs stay the ones in `handle`. -/
theorem tight_apply [Rtde.GodotVariant V] {v : Visit V} (h : v.group.Tight) {op : GroupOp V}
    (hkeeps : ¬ v.group.Recompiles op) : (v.apply op).group.Tight := by
  have hget : v.softPlc.1.Tight := by
    rcases v.softPlc_cases with ⟨hsome, -⟩ | ⟨-, hnew⟩
    · exact h _ hsome
    · rw [hnew]
      rfl
  intro impl himpl
  by_cases hprotocol : v.group.protocol = .softPlc
  · rw [softPlcImpl_apply hprotocol] at himpl
    cases op with
    | registerTag tagName ty =>
      simp only at himpl
      split at himpl
      · exact h impl himpl
      · cases himpl
        exact hget
    | poll env =>
      simp only at himpl
      split at himpl
      · exact h impl himpl
      · rename_i herror
        refine tight_processSoftPlcTagGroup h (fun impl' himpl' hcreates hhandle => ?_) impl himpl
        exact hkeeps ⟨hprotocol, Bool.eq_false_iff.mpr herror, impl', himpl', hhandle, hcreates⟩
    | write env w =>
      simp only at himpl
      split at himpl
      · exact tight_softPlcSet h w.tagName w.value impl himpl
      · exact h impl himpl
    | read tagName ty | message topic payload | frame delta startupTimer => exact h impl himpl
    | setSoftPlcProgram source | setSoftPlcWatchEnabled enabled =>
      cases himpl
      exact hget
    | cleanup => cases himpl
  · rw [softPlcImpl_apply_other hprotocol] at himpl
    cases op with
    | setSoftPlcProgram source | setSoftPlcWatchEnabled enabled =>
      cases himpl
      exact hget
    | registerTag tagName ty | poll env | write env w | read tagName ty | message topic payload
    | frame delta startupTimer | cleanup => exact h impl himpl

/-! ## What a group holds nothing of -/

/-- Nothing can be reached from a group. -/
structure TagGroup.Bare (g : TagGroup V) : Prop where
  plc : ∀ (tagName : CStr) (tag : PlcTag), g.plcTags[tagName]? = some tag → tag.tagPointer < 0
  client : g.client = none
  ads : g.adsImpl = none
  rtde : g.rtdeImpl = none
  mqtt : g.mqttImpl = none
  softPlc : g.softPlcImpl = none

/-- A tag without a handle holds nothing. -/
theorem plcTagHolds_eq_zero_iff (protocol : Protocol) (tag : PlcTag) :
    (plcTagHolds protocol tag : Multiset Resource) = 0 ↔ tag.tagPointer < 0 := by
  unfold plcTagHolds
  split
  · rename_i hpointer
    exact iff_of_false (Multiset.singleton_ne_zero _) (Int.not_lt.mpr hpointer)
  · rename_i hpointer
    exact iff_of_true rfl (Int.not_le.mp hpointer)

/-- An object holds at least itself. -/
theorem object_eq_zero_iff {β : Type} {holds : β → List Resource} (hself : ∀ b, holds b ≠ [])
    (object : Option β) :
    (object.toList.flatMap holds : Multiset Resource) = 0 ↔ object = none := by
  cases object with
  | none => exact iff_of_true rfl rfl
  | some b =>
    rw [Option.toList_some, List.flatMap_singleton, Multiset.coe_eq_zero]
    exact iff_of_false (hself b) (fun hno => nomatch hno)

/-- A bare group holds nothing, and no other does. -/
theorem holds_eq_zero_iff (g : TagGroup V) : g.holds = 0 ↔ g.Bare := by
  have hplc : g.plcHolds = 0 ↔ ∀ (tagName : CStr) (tag : PlcTag),
      g.plcTags[tagName]? = some tag → tag.tagPointer < 0 := by
    rw [TagGroup.plcHolds, total_eq_zero_iff]
    simp only [plcTagHolds_eq_zero_iff]
  have hua : g.uaHolds = 0 ↔ g.client = none := by
    rw [TagGroup.uaHolds]
    cases g.client with
    | none => exact iff_of_true rfl rfl
    | some client => exact iff_of_false (Multiset.singleton_ne_zero _) (fun hno => nomatch hno)
  have hads : g.adsHolds = 0 ↔ g.adsImpl = none :=
    object_eq_zero_iff (fun _ => List.cons_ne_nil _ _) g.adsImpl
  have hrtde : g.rtdeHolds = 0 ↔ g.rtdeImpl = none :=
    object_eq_zero_iff (fun _ => List.cons_ne_nil _ _) g.rtdeImpl
  have hmqtt : g.mqttHolds = 0 ↔ g.mqttImpl = none :=
    object_eq_zero_iff (fun _ => List.append_ne_nil_of_right_ne_nil _ (List.cons_ne_nil _ _))
      g.mqttImpl
  have hsoft : g.softPlcHolds = 0 ↔ g.softPlcImpl = none :=
    object_eq_zero_iff (fun _ => List.append_ne_nil_of_right_ne_nil _ (List.cons_ne_nil _ _))
      g.softPlcImpl
  simp only [TagGroup.holds, add_eq_zero, hplc, hua, hads, hrtde, hmqtt, hsoft]
  constructor
  · rintro ⟨⟨⟨⟨⟨hplc, hua⟩, hads⟩, hrtde⟩, hmqtt⟩, hsoft⟩
    exact ⟨hplc, hua, hads, hrtde, hmqtt, hsoft⟩
  · rintro ⟨hplc, hua, hads, hrtde, hmqtt, hsoft⟩
    exact ⟨⟨⟨⟨⟨hplc, hua⟩, hads⟩, hrtde⟩, hmqtt⟩, hsoft⟩

/-- A group as it is registered is bare. -/
theorem bare_registered (pollingInterval : Int) (protocol : Protocol) (gateway path cpu : CStr) :
    (TagGroup.registered pollingInterval protocol gateway path cpu : TagGroup V).Bare := by
  refine ⟨fun tagName tag hget => ?_, rfl, rfl, rfl, rfl, rfl⟩
  cases Std.ExtTreeMap.getElem?_empty.symm.trans hget

/-- A clean-up leaves a group bare, but for a soft PLC object the protocol does not have. -/
theorem bare_cleanup {v : Visit V} (h : v.group.Housed) :
    v.cleanup.group.Bare ↔ v.cleanup.group.softPlcImpl = none := by
  refine ⟨TagGroup.Bare.softPlc, fun hsoft => ?_⟩
  have hempty : ∀ tags : Std.ExtTreeMap CStr PlcTag, tags = ∅ → ∀ (tagName : CStr) (tag : PlcTag),
      tags[tagName]? = some tag → tag.tagPointer < 0 := by
    rintro _ rfl tagName tag hget
    cases Std.ExtTreeMap.getElem?_empty.symm.trans hget
  obtain ⟨hplc, hua, hads, hrtde, hmqtt⟩ := h
  revert hsoft
  unfold Visit.cleanup Visit.release
  cases hprotocol : v.group.protocol with
  | opcUa =>
    rw [hprotocol] at hplc hads hrtde hmqtt
    exact fun hsoft => ⟨hempty _ (hplc rfl), rfl, hads (fun hno => nomatch hno),
      hrtde (fun hno => nomatch hno), hmqtt (fun hno => nomatch hno), hsoft⟩
  | ads =>
    rw [hprotocol] at hplc hua hrtde hmqtt
    exact fun hsoft => ⟨hempty _ (hplc rfl), (hua (fun hno => nomatch hno)).1, rfl,
      hrtde (fun hno => nomatch hno), hmqtt (fun hno => nomatch hno), hsoft⟩
  | rtde =>
    rw [hprotocol] at hplc hua hads hmqtt
    exact fun hsoft => ⟨hempty _ (hplc rfl), (hua (fun hno => nomatch hno)).1,
      hads (fun hno => nomatch hno), rfl, hmqtt (fun hno => nomatch hno), hsoft⟩
  | mqtt =>
    rw [hprotocol] at hplc hua hads hrtde
    exact fun hsoft => ⟨hempty _ (hplc rfl), (hua (fun hno => nomatch hno)).1,
      hads (fun hno => nomatch hno), hrtde (fun hno => nomatch hno), rfl, hsoft⟩
  | softPlc =>
    rw [hprotocol] at hplc hua hads hrtde hmqtt
    exact fun hsoft => ⟨hempty _ (hplc rfl), (hua (fun hno => nomatch hno)).1,
      hads (fun hno => nomatch hno), hrtde (fun hno => nomatch hno),
      hmqtt (fun hno => nomatch hno), hsoft⟩
  | s7 | plctag name =>
    rw [hprotocol] at hua hads hrtde hmqtt
    exact fun hsoft => ⟨hempty _ rfl, (hua (fun hno => nomatch hno)).1,
      hads (fun hno => nomatch hno), hrtde (fun hno => nomatch hno),
      hmqtt (fun hno => nomatch hno), hsoft⟩

/-! ## What a change loses -/

/-- What can be reached from the groups. -/
def State.held (s : State V) : Multiset Resource := total (fun _ g => g.holds) s.tagGroups

/-- A change loses nothing: no poll compiles a program in the place of another, a group that is
registered over holds nothing, and no group that is cleared away has a soft PLC object its protocol
does not have. -/
def State.LosesNothing (s : State V) : Change V → Prop
  | .nothing => True
  | .one name op => ¬ (s.group name).Recompiles op
  | .all op => s.Every fun g => ¬ g.Recompiles op
  | .register name _ => ∀ g, s.tagGroups[name]? = some g → g.Bare
  | .clear => s.Every fun g => g.protocol ≠ .softPlc → g.softPlcImpl = none

section
variable [Rtde.GodotVariant V] {s : State V}

/-- What is lost by a change. -/
def State.lost (s : State V) : Change V → Multiset Resource
  | .nothing => 0
  | .one name op => (s.group name).lost op
  | .all op => total (fun _ g => g.lost op) s.tagGroups
  | .register name _ => (s.group name).holds
  | .clear => total (fun _ g => (g.after s.next .cleanup).group.holds) s.tagGroups

/-- What was held and was handed out by what happens to a group is what is held, was given back and
was lost. -/
theorem balanced_after {g : TagGroup V} (h : g.Tight) (next : Nat) (op : GroupOp V) :
    Balanced g.holds (acquired (g.after next op).calls) (g.after next op).group.holds
      (released (g.after next op).calls + g.lost op) := by
  obtain ⟨calls, hcalls, hbalanced⟩ := loses_apply (v := { group := g, next := next }) h op
  have hcalls : (g.after next op).calls = calls := hcalls
  rw [hcalls]
  exact hbalanced

/-- What happens to all groups is accounted for, but for what they lose. -/
theorem balanced_changeAll (h : s.Every TagGroup.Tight) (op : GroupOp V) :
    ∃ calls, (s.changeAll op).calls = s.calls ++ calls ∧
      Balanced s.held (acquired calls) (s.changeAll op).held
        (released calls + total (fun _ g => g.lost op) s.tagGroups) := by
  refine ⟨_, rfl, ?_⟩
  rw [acquired_flatMap, released_flatMap]
  have hgiven : total (fun _ g => released (g.after s.next op).calls + g.lost op) s.tagGroups =
      (s.tagGroups.toList.map fun x => released (x.2.after s.next op).calls).sum +
        total (fun _ g => g.lost op) s.tagGroups := total_add _ _ _
  rw [← hgiven]
  exact Balanced.map fun name g hget => balanced_after (h name g hget) s.next op

/-- The account of a change. -/
theorem balanced_change (h : s.Every TagGroup.Tight) {d : Change V}
    (hnew : ∀ name g, d = .register name g → g.Bare) :
    ∃ calls, (s.change d).calls = s.calls ++ calls ∧
      Balanced s.held (acquired calls) (s.change d).held (released calls + s.lost d) := by
  have hempty : ({} : TagGroup V).Bare := bare_registered 0 (.plctag []) [] [] []
  cases d with
  | nothing => exact ⟨[], (List.append_nil s.calls).symm, .refl _⟩
  | one name op =>
    refine ⟨_, rfl, ?_⟩
    have htight : (s.group name).Tight := h.group (fun _ hno => nomatch hno) name
    have hafter := balanced_after htight s.next op
    refine Balanced.insert (fun hget => ?_) fun g hget => ?_
    · have hgroup := State.group_of_none hget
      rw [hgroup, (holds_eq_zero_iff _).mpr hempty] at hafter
      rw [State.lost, hgroup]
      exact hafter
    · have hgroup := State.group_of_some hget
      rw [hgroup] at hafter
      rw [State.lost, hgroup]
      exact hafter
  | all op => exact balanced_changeAll h op
  | register name g =>
    have hbare := (holds_eq_zero_iff g).mpr (hnew name g rfl)
    refine ⟨[], (List.append_nil s.calls).symm, ?_⟩
    refine Balanced.insert (fun hget => ?_) fun g' hget => ?_
    · rw [State.lost, State.group_of_none hget, (holds_eq_zero_iff _).mpr hempty, hbare]
      exact .refl 0
    · rw [State.lost, State.group_of_some hget, hbare]
      show g'.holds + 0 = 0 + (0 + g'.holds)
      rw [add_zero, zero_add, zero_add]
  | clear =>
    obtain ⟨calls, hcalls, hbalanced⟩ := balanced_changeAll h .cleanup
    have hnone : total (fun _ g => g.lost .cleanup) s.tagGroups = 0 :=
      total_eq_zero _ fun _ _ _ => rfl
    have hcleared : (s.changeAll .cleanup).held = s.lost .clear := total_map _ _ _
    refine ⟨calls, hcalls, ?_⟩
    rw [hnone, hcleared, add_zero] at hbalanced
    show s.held + acquired calls = 0 + (released calls + s.lost .clear)
    rw [hbalanced, zero_add, add_comm]

/-- What a clean-up leaves a group holding. -/
theorem holds_cleanup {g : TagGroup V} (h : g.Housed) (next : Nat) :
    (g.after next .cleanup).group.holds = 0 ↔ (g.protocol ≠ .softPlc → g.softPlcImpl = none) := by
  rw [holds_eq_zero_iff]
  refine (bare_cleanup (v := { group := g, next := next }) h).trans ?_
  by_cases hprotocol : g.protocol = .softPlc
  · have hnone := softPlcImpl_apply (v := { group := g, next := next }) hprotocol .cleanup
    exact iff_of_true hnone fun hno => absurd hprotocol hno
  · have hkept := softPlcImpl_apply_other (v := { group := g, next := next }) hprotocol .cleanup
    have hkept : ({ group := g, next := next } : Visit V).cleanup.group.softPlcImpl =
      g.softPlcImpl := hkept
    rw [hkept]
    exact ⟨fun hnone _ => hnone, fun hnone => hnone hprotocol⟩

/-- A change loses nothing if none of its groups does. -/
theorem lost_change_eq_zero_iff (hhoused : s.Every TagGroup.Housed) (d : Change V) :
    s.lost d = 0 ↔ s.LosesNothing d := by
  cases d with
  | nothing => exact iff_of_true rfl trivial
  | one name op => exact lost_eq_zero_iff (s.group name) op
  | all op =>
    rw [State.lost, total_eq_zero_iff]
    simp only [lost_eq_zero_iff]
    rfl
  | register name g =>
    rw [State.lost, holds_eq_zero_iff, State.group, State.LosesNothing]
    cases hget : s.tagGroups[name]? with
    | none =>
      exact iff_of_true (bare_registered 0 (.plctag []) [] [] [])
        fun g hno => absurd hno.symm (Option.some_ne_none g)
    | some g' => simp only [Option.getD_some, Option.some.injEq, forall_eq']
  | clear =>
    rw [State.lost, total_eq_zero_iff]
    refine forall_congr' fun name => forall_congr' fun g => forall_congr' fun hget => ?_
    exact holds_cleanup (hhoused name g hget) s.next

/-- A change that loses nothing keeps each program in its object. -/
theorem tight_change (h : s.Every TagGroup.Tight) {d : Change V}
    (hnew : ∀ name g, d = .register name g → g.Bare) (hkeeps : s.LosesNothing d) :
    (s.change d).Every TagGroup.Tight := by
  refine h.change (fun _ hno => nomatch hno) (fun name g hregister impl himpl => ?_)
    fun x hx hx' => tight_apply hx' ?_
  · cases (hnew name g hregister).softPlc.symm.trans himpl
  · cases d with
    | nothing | register name g => cases hx
    | one name op =>
      rw [List.mem_singleton.mp hx]
      exact hkeeps
    | all op =>
      obtain ⟨y, hy, rfl⟩ := List.mem_map.mp hx
      exact hkeeps y.1 y.2 (Std.ExtTreeMap.mem_toList_iff_getElem?_eq_some.mp hy)
    | clear =>
      obtain ⟨y, -, rfl⟩ := List.mem_map.mp hx
      exact fun hno => hno

end

/-! ## Runs -/

/-- What was handed out is what can be reached and what was given back. -/
def Machine.Accounted (m : Machine V) : Prop :=
  acquired m.comms.calls = m.comms.held + released m.comms.calls

/-- A step loses nothing. -/
def Machine.LosesNothing (m : Machine V) (l : Label V) : Prop := m.comms.LosesNothing (m.change l)

section
variable [Rtde.GodotVariant V]

/-- What an account that was right is after a step. -/
theorem accounted_step_iff {m : Machine V} (hhoused : m.comms.Every TagGroup.Housed)
    (htight : m.comms.Every TagGroup.Tight) (h : m.Accounted) (l : Label V) :
    (m.step l).Accounted ↔ m.LosesNothing l := by
  have hnew : ∀ name g, m.change l = .register name g → g.Bare := by
    intro name g hregister
    obtain ⟨pollingInterval, protocol, gateway, path, cpu, rfl⟩ := Machine.change_register hregister
    exact bare_registered pollingInterval protocol gateway path cpu
  obtain ⟨calls, hcalls, hbalanced⟩ := balanced_change htight hnew
  have hsame := step_same m l
  have hheld : (m.step l).comms.held = (m.comms.change (m.change l)).held := by
    rw [State.held, hsame.tagGroups, State.held]
  rw [Machine.Accounted, hsame.calls, hcalls, hheld, acquired_append, released_append,
    account_iff hbalanced h]
  exact lost_change_eq_zero_iff hhoused (m.change l)

/-- In every state of a run, everything that was handed out can be reached from the groups or was
given back, and not both, if and only if no step loses anything. -/
theorem accounted_iff (ops : List (Label V)) :
    Along Machine.step Machine.Accounted ({} : Machine V) ops ↔
      Meets Machine.step Machine.LosesNothing ({} : Machine V) ops := by
  refine along_iff_meets Machine.step (B := fun m => m.comms.Every TagGroup.Housed)
    (J := fun m => m.comms.Every TagGroup.Tight ∧ m.Accounted) (D := fun _ _ => True) ?_ ?_ ?_ ?_ ?_
    ?_ ?_
  · intro m l h _
    exact Machine.every_step h housed_empty housed_registered fun x _ hx =>
      (stays_apply (v := { group := x.2.1, next := m.comms.next }) hx x.2.2).1
  · intro m l hhoused ⟨htight, haccounted⟩ _ hkeeps
    refine ⟨?_, (accounted_step_iff hhoused htight haccounted l).mpr hkeeps⟩
    intro name g hget
    rw [(step_same m l).tagGroups] at hget
    refine tight_change htight (fun name g hregister => ?_) hkeeps name g hget
    obtain ⟨pollingInterval, protocol, gateway, path, cpu, rfl⟩ := Machine.change_register hregister
    exact bare_registered pollingInterval protocol gateway path cpu
  · exact fun m _ h => h.2
  · intro m l hhoused ⟨htight, haccounted⟩ _ hloses haccounted'
    exact hloses ((accounted_step_iff hhoused htight haccounted l).mp haccounted')
  · intro name g hget
    cases Std.ExtTreeMap.getElem?_empty.symm.trans hget
  · refine ⟨fun name g hget => ?_, rfl⟩
    cases Std.ExtTreeMap.getElem?_empty.symm.trans hget
  · exact meets_of_forall Machine.step (fun _ _ => trivial) {} ops

end

/-- A group of an S7 tag whose handle was created, registered over. -/
def registeredOver : List (Label Bool) :=
  started "g".toList .s7 "MB0".toList ++ frameAndPoll 100000 {} ++
    [.call (.registerTagGroup "g".toList 100 .s7 [] [] [])]

/-- The handle is neither held nor given back. -/
theorem handle_lost : ¬ Along Machine.step Machine.Accounted ({} : Machine Bool) registeredOver := by
  intro h
  have haccounted : acquired _ = _ + released _ := h.last
  revert haccounted
  decide

end OipComms.Backend
