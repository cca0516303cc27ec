import OipComms.Backend.Counting
import OipComms.Backend.Frames
import OipComms.Backend.Housed

/-!
# What the readiness signals promise

A frame holds `init_count` against the number of tags, as its own dispatch finds it. For six
protocols both sides are right, so a signal says that every tag is initialised. For `soft_plc` the
frame looks into `plc_tags`, where there is nothing, and the signal says nothing.

`Since` remembers for each tag whether it was initialised after its session was last invalidated.
-/

namespace OipComms.Backend

open Comms (Protocol Signal)
open Run Sweep

variable {V : Type}

/-- Every tag of the group is initialised in the sense of its backend. -/
def TagGroup.AllInitialised (g : TagGroup V) : Prop :=
  ∀ (tagName : CStr) (b : Bool), g.status[tagName]? = some b → b = true

/-- A map that is changed keeps its size. -/
theorem size_map {α β : Type} (f : CStr → α → β) (m : Std.ExtTreeMap CStr α) :
    (m.map f).size = m.size := by
  rw [← Std.ExtTreeMap.length_toList, ← Std.ExtTreeMap.length_toList, Std.ExtTreeMap.toList_map,
    List.length_map]

/-- Where `process` looks for the tags, six protocols have them. -/
theorem totalTagCount_eq {g : TagGroup V} (hsoft : g.protocol ≠ .softPlc) :
    g.totalTagCount = g.status.size := by
  unfold TagGroup.totalTagCount TagGroup.status
  cases hprotocol : g.protocol with
  | opcUa => exact (size_map _ _).symm
  | ads =>
    refine Eq.trans ?_ (size_map _ _).symm
    rw [TagGroup.adsTags]
    cases g.adsImpl <;> rfl
  | rtde =>
    refine Eq.trans ?_ (size_map _ _).symm
    rw [Rtde.TagGroup.tags, TagGroup.toRtde]
    cases g.rtdeImpl <;> rfl
  | mqtt =>
    refine Eq.trans ?_ (size_map _ _).symm
    rw [TagGroup.mqttTags]
    cases g.mqttImpl <;> rfl
  | softPlc => exact absurd hprotocol hsoft
  | s7 | plctag name => exact (size_map _ _).symm

/-- A count that has come to the number of tags has every tag initialised. -/
theorem TagGroup.Counted.allInitialised {g : TagGroup V} (h : g.Counted)
    (hsoft : g.protocol ≠ .softPlc) (hready : g.totalTagCount ≤ g.initCount) :
    g.AllInitialised := by
  intro tagName b hget
  rw [totalTagCount_eq hsoft, initialisedCount_eq h hsoft] at hready
  exact all_of_size_le_count hready hget

/-! ## Invalidations -/

/-- If the session was invalidated, no tag is initialised. -/
def Visit.Clean (v : Visit V) : Prop :=
  v.invalidated = true → ∀ (tagPath : CStr) (tag : OpcUaTag),
    v.group.opcUaTags[tagPath]? = some tag → tag.initialized = false

/-- A poll that does not find the session dead invalidates nothing. -/
theorem clean_of_not {v : Visit V} (h : v.invalidated = false) : v.Clean :=
  fun hyes => absurd (h.symm.trans hyes) Bool.false_ne_true

/-- A session found dead leaves no tag initialised. -/
theorem clean_invalidateOpcUaSession (v : Visit V) : v.invalidateOpcUaSession.Clean := by
  intro _ tagPath tag hget
  have hget : (v.group.opcUaTags.map fun _ tag => tag.invalidated)[tagPath]? = some tag := hget
  rw [Std.ExtTreeMap.getElem?_map] at hget
  obtain ⟨tag', -, rfl⟩ := Option.map_eq_some_iff.mp hget
  exact tag'.invalidated_initialized

/-- The reads of a poll end where one finds the session dead. -/
theorem clean_pollOpcUaTags {v : Visit V} (h : v.invalidated = false) (env : UaEnv)
    (client : Nat) : (v.pollOpcUaTags env client).Clean := by
  unfold Visit.pollOpcUaTags
  simp only
  split
  · exact clean_invalidateOpcUaSession _
  · exact clean_of_not h

theorem clean_processTagGroup {v : Visit V} (hprotocol : v.group.protocol = .opcUa)
    (h : v.invalidated = false) (env : Env V) : (v.processTagGroup env).Clean := by
  unfold Visit.processTagGroup
  split
  · exact clean_of_not h
  · rw [hprotocol]
    have hinit : (v.initOpcUaClient env.ua).2.invalidated = false := by
      unfold Visit.initOpcUaClient
      simp only
      split
      · exact h
      · exact h
    rcases processOpcUaTagGroup_cases env.ua v with ⟨client, -, -, hpoll⟩ | ⟨-, hpoll⟩
    · exact hpoll ▸ clean_pollOpcUaTags h env.ua client
    · simp only [hpoll]
      split
      · exact clean_pollOpcUaTags hinit env.ua v.next
      · exact clean_of_not hinit

theorem clean_processWrite [Rtde.GodotVariant V] {v : Visit V}
    (hprotocol : v.group.protocol = .opcUa) (h : v.invalidated = false) (env : WriteEnv)
    (w : Comms.WriteRequest V) : (v.processWrite env w).Clean := by
  unfold Visit.processWrite
  rw [hprotocol]
  cases instructionType w.instruction with
  | none => exact clean_of_not h
  | some ty =>
    simp only [Visit.opcTagSet]
    split
    · split
      · rcases opcWrite_cases env.ua _ w.tagName with
          hwrite | ⟨client, -, -, v', rfl, hwrite | hwrite⟩
        · rw [hwrite]
          exact clean_of_not h
        · rw [hwrite]
          exact clean_of_not h
        · rw [hwrite]
          exact clean_invalidateOpcUaSession _
      · exact clean_of_not h
    · exact clean_of_not h

/-- What finds the session dead leaves no tag initialised. -/
theorem clean_apply [Rtde.GodotVariant V] {v : Visit V} (h : v.invalidated = false)
    (op : GroupOp V) : (v.apply op).Clean := by
  have hapart : ∀ {v' : Visit V}, v.Apart v' → v'.Clean :=
    fun happart => clean_of_not (happart.invalidated.trans h)
  by_cases hprotocol : v.group.protocol = .opcUa
  · cases op with
    | registerTag tagName ty =>
      show (if _ then v else _).Clean
      split
      · exact clean_of_not h
      · unfold Visit.registerTag
        rw [hprotocol]
        exact clean_of_not h
    | poll env => exact clean_processTagGroup hprotocol h env
    | write env w => exact clean_processWrite hprotocol h env w
    | read tagName ty => exact hapart (v.read_apart tagName ty)
    | message topic payload => exact hapart (v.message_apart topic payload)
    | setSoftPlcProgram source => exact hapart (v.setSoftPlcProgram_apart source)
    | setSoftPlcWatchEnabled enabled => exact hapart (v.setSoftPlcWatchEnabled_apart enabled)
    | frame delta startupTimer => exact hapart (v.frame_apart delta startupTimer)
    | cleanup =>
      show v.cleanup.Clean
      unfold Visit.cleanup Visit.release
      rw [hprotocol]
      exact clean_of_not h
  · exact hapart (v.apply_apart hprotocol op)

/-! ## Signals -/

/-- When a frame announces a group. -/
theorem mem_signals_initialized {g : TagGroup V} {name name' : CStr} {delta startupTimer : Int} :
    Signal.tagGroupInitialized name ∈ g.signals name' delta startupTimer ↔
      name = name' ∧ g.announces startupTimer = true := by
  unfold TagGroup.signals
  simp only [List.mem_append, List.mem_ite_nil_right, List.mem_singleton, reduceCtorEq, and_false,
    false_or, or_false, Signal.tagGroupInitialized.injEq]
  exact and_comm

/-- When a frame announces that a session is back. -/
theorem mem_signals_recovered {g : TagGroup V} {name name' : CStr} {delta startupTimer : Int} :
    Signal.opcUaSessionRecovered name ∈ g.signals name' delta startupTimer ↔
      name = name' ∧ g.recovers = true := by
  unfold TagGroup.signals
  simp only [List.mem_append, List.mem_ite_nil_right, List.mem_singleton, reduceCtorEq, and_false,
    false_or, Signal.opcUaSessionRecovered.injEq]
  exact and_comm

section
variable [Rtde.GodotVariant V] {m : Machine V}

/-- The signals of a frame that runs are those of its groups. -/
theorem mem_process {s : State V} {ticks : UInt64} {signal : Signal} :
    signal ∈ (s.process ticks).1 ↔
      (s.enableComms && s.simRunning) = true ∧ ∃ (name : CStr) (g : TagGroup V),
        s.tagGroups[name]? = some g ∧ signal ∈ g.signals name (s.delta ticks) s.startupTimer := by
  unfold State.process
  split
  · rename_i hrunning
    rw [List.mem_flatMap]
    constructor
    · rintro ⟨x, hx, hsignal⟩
      exact ⟨hrunning, x.1, x.2, Std.ExtTreeMap.mem_toList_iff_getElem?_eq_some.mp hx, hsignal⟩
    · rintro ⟨-, name, g, hget, hsignal⟩
      exact ⟨(name, g), Std.ExtTreeMap.mem_toList_iff_getElem?_eq_some.mpr hget, hsignal⟩
  · rename_i hrunning
    simp only [List.not_mem_nil, false_iff, not_and]
    exact fun hyes => absurd hyes hrunning

end

/-! ## What is remembered -/

/-- The tag is initialised in the sense of its backend. -/
def Machine.initialised (m : Machine V) (name tagName : CStr) : Bool :=
  m.comms.tagGroups[name]?.any fun g => g.status[tagName]? = some true

section
variable [Rtde.GodotVariant V]

/-- The step invalidates the session of a group. -/
def Machine.invalidates (m : Machine V) (l : Label V) (name : CStr) : Bool :=
  (m.changed l).any fun x => x.1 = name && (x.2.1.after m.comms.next x.2.2).invalidated

/-- The tags, by the name of their group and their own, that were initialised since the session of
the group was last invalidated. -/
abbrev Since := CStr → CStr → Bool

/-- What a step adds. -/
def Since.note (m : Machine V) (l : Label V) (since : Since) : Since := fun name tagName =>
  !m.invalidates l name &&
    (since name tagName || !m.initialised name tagName && (m.step l).initialised name tagName)

/-- A step with what is remembered. -/
def Since.step : Machine V × Since → Label V → Machine V × Since := watch Machine.step Since.note

/-- The start of every run. -/
def Since.init : Machine V × Since := ({}, fun _ _ => false)

/-- What the signals of a step promise: a group that is announced has every tag initialised, and one
that is recovered, every tag since its session was last invalidated. -/
def Ready (x : Machine V × Since) (l : Label V) : Prop :=
  (∀ name, .tagGroupInitialized name ∈ x.1.signals l →
    ∃ g, x.1.comms.tagGroups[name]? = some g ∧ g.AllInitialised) ∧
  ∀ name, .opcUaSessionRecovered name ∈ x.1.signals l →
    ∃ g, x.1.comms.tagGroups[name]? = some g ∧ g.AllInitialised ∧
      ∀ tagName ∈ g.status, x.2 name tagName = true

/-- A frame that announces a soft PLC group finds its program compiled, or no tag in it. -/
def AnnouncesCompiled (m : Machine V) : Label V → Prop
  | .call (.process _) =>
    (m.comms.enableComms && m.comms.simRunning) = true →
      Comms.registerWaitTime ≤ m.comms.startupTimer →
        ∀ x ∈ m.comms.tagGroups.toList, x.2.protocol = .softPlc → x.2.initCountEmitted = false →
          x.2.compiled = true ∨ x.2.softPlcTags.isEmpty = true
  | _ => True

/-- What every state has: the counts are right, the tags are where they belong, and what is
initialised is remembered. -/
structure Kept (x : Machine V × Since) : Prop where
  counted : x.1.comms.Every TagGroup.Counted
  housed : x.1.comms.Every TagGroup.Housed
  since : ∀ name tagName, x.1.initialised name tagName = true → x.2 name tagName = true

/-- After a step that invalidates the session of a group, no tag of the group is initialised. -/
theorem initialised_of_invalidates {m : Machine V} {l : Label V}
    (h : m.comms.Every TagGroup.Housed) {name : CStr} (hinvalidates : m.invalidates l name = true)
    (tagName : CStr) : (m.step l).initialised name tagName = false := by
  obtain ⟨x, hx, hyes⟩ := List.any_eq_true.mp hinvalidates
  obtain ⟨hname, hinvalidated⟩ := Bool.and_eq_true_iff.mp hyes
  obtain rfl : x.1 = name := of_decide_eq_true hname
  have hhoused := m.changed_every h housed_empty x hx
  unfold Machine.initialised
  rcases Machine.step_get hx with hget | ⟨-, hget⟩
  · have hclean := clean_apply (v := { group := x.2.1, next := m.comms.next }) rfl x.2.2 hinvalidated
    have hprotocol : (x.2.1.after m.comms.next x.2.2).group.protocol = .opcUa := by
      rw [TagGroup.after, (stays_apply (v := { group := x.2.1, next := m.comms.next }) hhoused x.2.2).2]
      by_contra hno
      have happart := Visit.apply_apart (v := { group := x.2.1, next := m.comms.next }) hno x.2.2
      exact absurd (happart.invalidated.symm.trans hinvalidated) Bool.false_ne_true
    rw [hget, Option.any_some, TagGroup.status, hprotocol]
    refine decide_eq_false fun hstatus => ?_
    have hstatus : ((x.2.1.after m.comms.next x.2.2).group.opcUaTags.map
      fun _ tag => tag.initialized)[tagName]? = some true := hstatus
    rw [Std.ExtTreeMap.getElem?_map] at hstatus
    obtain ⟨tag, htag, hinitialized⟩ := Option.map_eq_some_iff.mp hstatus
    exact absurd ((hclean tagName tag htag).symm.trans hinitialized) Bool.false_ne_true
  · rw [hget]
    rfl

/-- Every step keeps what is remembered of the tags. -/
theorem kept_step {x : Machine V × Since} {l : Label V} (h : Kept x) : Kept (Since.step x l) := by
  refine ⟨?_, ?_, ?_⟩
  · exact Machine.every_step h.counted counted_empty counted_registered fun y _ hy =>
      TagGroup.Counted.apply (v := { group := y.2.1, next := x.1.comms.next }) hy y.2.2
  · exact Machine.every_step h.housed housed_empty housed_registered fun y _ hy =>
      (stays_apply (v := { group := y.2.1, next := x.1.comms.next }) hy y.2.2).1
  · intro name tagName hinitialised
    have hinitialised : (x.1.step l).initialised name tagName = true := hinitialised
    show (!x.1.invalidates l name && _) = true
    cases hinvalidates : x.1.invalidates l name with
    | true =>
      rw [initialised_of_invalidates h.housed hinvalidates tagName] at hinitialised
      cases hinitialised
    | false =>
      cases hbefore : x.1.initialised name tagName with
      | true =>
        rw [h.since name tagName hbefore]
        rfl
      | false =>
        rw [hinitialised, Bool.not_false, Bool.true_and, Bool.true_and, Bool.or_true]

omit [Rtde.GodotVariant V] in
/-- A soft PLC group has every tag initialised when its program is compiled or it has none. -/
theorem allInitialised_softPlc {g : TagGroup V} (hprotocol : g.protocol = .softPlc) :
    g.AllInitialised ↔ g.compiled = true ∨ g.softPlcTags.isEmpty = true := by
  unfold TagGroup.AllInitialised TagGroup.status
  simp only [hprotocol]
  constructor
  · intro hall
    rw [Std.ExtTreeMap.isEmpty_iff, Std.ExtTreeMap.eq_empty_iff_forall_not_mem]
    refine or_iff_not_imp_left.mpr fun hno tagName hmem => hno (hall tagName _ ?_)
    rw [Std.ExtTreeMap.getElem?_map, Std.ExtTreeMap.getElem?_eq_some_getElem hmem]
    rfl
  · intro hor tagName b hget
    rw [Std.ExtTreeMap.getElem?_map] at hget
    obtain ⟨tag, htag, rfl⟩ := Option.map_eq_some_iff.mp hget
    refine hor.resolve_right fun hempty => ?_
    rw [Std.ExtTreeMap.isEmpty_iff.mp hempty] at htag
    cases Std.ExtTreeMap.getElem?_empty.symm.trans htag

/-- Under what every state has, the signals of a step promise what they say if and only if no soft
PLC group is announced without its program. -/
theorem ready_iff {x : Machine V × Since} (h : Kept x) (l : Label V) :
    Ready x l ↔ AnnouncesCompiled x.1 l := by
  cases l with
  | push i | work write poll | message name topic payload =>
    exact iff_of_true ⟨fun _ hno => (nomatch hno), fun _ hno => (nomatch hno)⟩ trivial
  | call c =>
    cases c with
    | registerTagGroup name pollingInterval protocol gateway path cpu | registerTag name tagName ty
    | setSoftPlcProgram name source | setSoftPlcWatchEnabled name enabled | setEnableComms value
    | setSimRunning value | write w | read name tagName ty | clearTagGroups =>
      exact iff_of_true ⟨fun _ hno => (nomatch hno), fun _ hno => (nomatch hno)⟩ trivial
    | process ticks =>
      constructor
      · rintro ⟨hready, -⟩ hrunning hwait ⟨name, g⟩ hg hprotocol hemitted
        have hget := Std.ExtTreeMap.mem_toList_iff_getElem?_eq_some.mp hg
        have hannounces : g.announces x.1.comms.startupTimer = true := by
          have hplc : g.plcTags = ∅ := (h.housed name g hget).plc (by rw [hprotocol]; rfl)
          have htotal : g.totalTagCount = 0 := by
            unfold TagGroup.totalTagCount
            rw [hprotocol, hplc]
            rfl
          have hemitted : g.initCountEmitted = false := hemitted
          rw [TagGroup.announces, htotal, hemitted, decide_eq_true hwait]
          exact decide_eq_true (Nat.zero_le g.initCount)
        obtain ⟨g', hget', hall⟩ := hready name (mem_process.mpr ⟨hrunning, name, g, hget,
          mem_signals_initialized.mpr ⟨rfl, hannounces⟩⟩)
        obtain rfl := Option.some.inj (hget.symm.trans hget')
        exact (allInitialised_softPlc hprotocol).mp hall
      · intro hcompiled
        constructor
        · intro name hsignal
          obtain ⟨hrunning, name', g, hget, hsignal⟩ := mem_process.mp hsignal
          obtain ⟨rfl, hannounces⟩ := mem_signals_initialized.mp hsignal
          refine ⟨g, hget, ?_⟩
          obtain ⟨hpending, hready⟩ := Bool.and_eq_true_iff.mp hannounces
          obtain ⟨hwait, hemitted⟩ := Bool.and_eq_true_iff.mp hpending
          by_cases hprotocol : g.protocol = .softPlc
          · exact (allInitialised_softPlc hprotocol).mpr
              (hcompiled hrunning (of_decide_eq_true hwait) (name, g)
                (Std.ExtTreeMap.mem_toList_iff_getElem?_eq_some.mpr hget) hprotocol
                (Bool.not_eq_true' _ |>.mp hemitted))
          · exact (h.counted name g hget).allInitialised hprotocol (of_decide_eq_true hready)
        · intro name hsignal
          obtain ⟨-, name', g, hget, hsignal⟩ := mem_process.mp hsignal
          obtain ⟨rfl, hrecovers⟩ := mem_signals_recovered.mp hsignal
          obtain ⟨hpending, hready⟩ := Bool.and_eq_true_iff.mp hrecovers
          -- only an OPC UA group has a recovery to announce
          have hprotocol : g.protocol = .opcUa := by
            by_contra hno
            exact absurd (((h.housed name g hget).opcUa hno).2.2.symm.trans hpending)
              Bool.false_ne_true
          have hall := (h.counted name g hget).allInitialised
            (fun hsoft => nomatch hprotocol.symm.trans hsoft) (of_decide_eq_true hready)
          refine ⟨g, hget, hall, fun tagName hmem => h.since name tagName ?_⟩
          have hstatus := Std.ExtTreeMap.getElem?_eq_some_getElem hmem
          rw [Machine.initialised, hget, Option.any_some, hstatus, hall tagName _ hstatus]
          rfl

/-- In a run, every readiness signal is true when it is emitted if and only if no frame announces a
soft PLC group that has tags before its program is compiled. -/
theorem ready_iff_announces_compiled (ops : List (Label V)) :
    Meets Since.step Ready Since.init ops ↔
      Meets Machine.step AnnouncesCompiled ({} : Machine V) ops := by
  have hkept : Kept (Since.init : Machine V × Since) := by
    refine ⟨?_, ?_, ?_⟩
    · exact fun name g hget => (nomatch Std.ExtTreeMap.getElem?_empty.symm.trans hget)
    · exact fun name g hget => (nomatch Std.ExtTreeMap.getElem?_empty.symm.trans hget)
    · intro name tagName hno
      cases hno
  have hwatch := meets_watch Machine.step Since.note AnnouncesCompiled (Since.init (V := V)) ops
  refine Iff.trans ?_ hwatch
  exact meets_iff_meets Since.step (fun x l h => kept_step h) (fun x l h => ready_iff h l) hkept ops

end

/-- A soft PLC group with a tag and no program yet, and a frame 600 ms after the first one. -/
def announcedUncompiled : List (Label Bool) :=
  started "g".toList .softPlc "run".toList ++
    [.call (.process 600000), .call (.process 616000)]

/-- A soft PLC group is announced without a program. -/
theorem ready_without_program : ¬ Meets Since.step Ready Since.init announcedUncompiled := by
  intro h
  obtain ⟨hready, -⟩ := (meets_iff_split Since.step Ready Since.init announcedUncompiled).mp h
    (announcedUncompiled.take 4) (.call (.process 616000)) [] rfl
  have hrun : (run Since.step Since.init (announcedUncompiled.take 4)).1 =
      run Machine.step ({} : Machine Bool) (announcedUncompiled.take 4) :=
    run_watch_fst Machine.step Since.note Since.init (announcedUncompiled.take 4)
  rw [hrun] at hready
  obtain ⟨g, hget, hall⟩ := hready "g".toList (by decide)
  have hstatus : (run Machine.step ({} : Machine Bool)
      (announcedUncompiled.take 4)).comms.tagGroups["g".toList]?.any
        (fun g => g.status["run".toList]? = some false) = true := by decide
  rw [hget, Option.any_some, decide_eq_true_iff] at hstatus
  exact absurd (hall _ _ hstatus) Bool.false_ne_true

end OipComms.Backend
