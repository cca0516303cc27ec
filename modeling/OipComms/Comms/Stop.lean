import Mathlib.Data.List.Forall2
import OipComms.Comms.Worker

/-!
# What a stop cleans up

The flag of a stop is set at once, its clean-up waits in the queue of group names. Until it has been
run, a tag that is registered goes with it; and a group of the name that stands for a clean-up asks
for one whenever it is polled. A run with neither is `Undisturbed` at each of its steps: then each
clean-up the work thread runs answers one stop, and takes no tag that was registered after it.

`Ordered` is what the queue says about the stops that are pending.
-/

namespace OipComms.Comms

open Run

universe u

variable {V : Type u}

/-- A clean-up is in the queue, or the work thread has taken it and not yet run it. -/
def Machine.cleanupPending (m : Machine V) : Bool :=
  m.work.cleaning || m.comms.tagGroupQueue.contains cleanupToken

/-- The step registers no tag while a clean-up is pending, and is no frame that queues a group of
the name that stands for a clean-up. -/
def Machine.Undisturbed (m : Machine V) : Label V → Prop
  | .call (.registerTag name tagName _) =>
    m.pushing = none → m.comms.Registrable name tagName → m.cleanupPending = false
  | .call (.process ticks) => m.pushing = none → cleanupToken ∉ m.comms.dueNames ticks
  | _ => True

instance (m : Machine V) (l : Label V) : Decidable (m.Undisturbed l) :=
  match l with
  | .call (.registerTag name tagName _) => inferInstanceAs (Decidable (m.pushing = none →
      m.comms.Registrable name tagName → m.cleanupPending = false))
  | .call (.process ticks) =>
    inferInstanceAs (Decidable (m.pushing = none → cleanupToken ∉ m.comms.dueNames ticks))
  | .call (.registerTagGroup _ _ _) | .call (.setEnableComms _) | .call (.setSimRunning _)
  | .call (.write _) | .call .clearTagGroups | .push | .work _ _ => .isTrue trivial

/-- The clean-up that the work thread runs in this step, if it does, is the first for its stop, and
the tags it takes away were registered before. -/
def Responds (x : Watched V) : Label V → Prop
  | .work _ _ => ∀ name, x.1.work = .cleanup name →
    ∃ n k, x.2.current = .stop n k ∧ n ∉ x.2.answered ∧
      ∀ r ∈ x.2.registered, x.1.comms.tagExists r.1 r.2.1 = true → r.2.2 < n
  | _ => True

/-- The tags that no stop, clear or registration of their group came after are there. -/
def Remains (x : Watched V) : Prop := ∀ r ∈ x.2.kept, x.1.comms.tagExists r.1 r.2 = true

/-! ## The stops that are pending -/

/-- The number of the stop a name comes from. -/
def Origin.number : Origin → Option Nat
  | .stop n _ => some n
  | _ => none

/-- The stops whose clean-up has not been run, the one the work thread has taken included. -/
def History.pending (h : History V) (cleaning : Bool) : List Nat :=
  (if cleaning then h.current :: h.origins else h.origins).filterMap Origin.number

/-- The history knows the stops behind the queue: each clean-up in it or taken from it comes from
a stop, no two from the same and none from one that was answered, and no tag was registered since.
-/
structure Ordered (queue : List CStr) (cleaning : Bool) (h : History V) : Prop where
  names : List.Forall₂ (fun name o => name = cleanupToken ↔ o.number.isSome = true) queue h.origins
  taken : cleaning = true → h.current.number.isSome = true
  nodup : (h.pending cleaning ++ h.answered).Nodup
  bounded : ∀ n ∈ h.pending cleaning ++ h.answered, n ≤ h.stops
  epochs : ∀ r ∈ h.registered, r.2.2 ≤ h.stops
  before : ∀ n ∈ h.pending cleaning, ∀ r ∈ h.registered, r.2.2 < n
  unkept : h.pending cleaning ≠ [] → h.kept = []

section
variable {queue : List CStr} {cleaning : Bool} {h : History V}

/-- What `Ordered` does not look at may change, and tags may be dropped. -/
theorem Ordered.congr (ho : Ordered queue cleaning h) {h' : History V}
    (horigins : h'.origins = h.origins) (hcurrent : h'.current = h.current)
    (hstops : h'.stops = h.stops) (hanswered : h'.answered = h.answered)
    (hregistered : h'.registered = h.registered) (hkept : h'.kept ⊆ h.kept) :
    Ordered queue cleaning h' := by
  have hpending : h'.pending cleaning = h.pending cleaning := by
    rw [History.pending, horigins, hcurrent, History.pending]
  constructor
  · rw [horigins]
    exact ho.names
  · rw [hcurrent]
    exact ho.taken
  · rw [hpending, hanswered]
    exact ho.nodup
  · rw [hpending, hanswered, hstops]
    exact ho.bounded
  · rw [hregistered, hstops]
    exact ho.epochs
  · rw [hpending, hregistered]
    exact ho.before
  · intro hne
    rw [ho.unkept (hpending ▸ hne)] at hkept
    exact List.subset_nil.mp hkept

/-- What is pending after more origins. -/
theorem pending_append (h : History V) (cleaning : Bool) (origins : List Origin) :
    ({ h with origins := h.origins ++ origins } : History V).pending cleaning =
      h.pending cleaning ++ origins.filterMap Origin.number := by
  cases cleaning with
  | false => exact List.filterMap_append
  | true =>
    simp only [History.pending, if_true]
    rw [← List.cons_append, List.filterMap_append]

/-- Names that come from no stop. -/
theorem Ordered.append (ho : Ordered queue cleaning h) {names : List CStr} {origins : List Origin}
    (hnames : List.Forall₂ (fun name o => name ≠ cleanupToken ∧ o.number = none) names origins) :
    Ordered (queue ++ names) cleaning { h with origins := h.origins ++ origins } := by
  have hnone : origins.filterMap Origin.number = [] := by
    induction hnames with
    | nil => rfl
    | cons hhead _ ih => rw [List.filterMap_cons_none hhead.2, ih]
  have hpending := (pending_append h cleaning origins).trans
    (by rw [hnone, List.append_nil])
  constructor
  · refine List.rel_append ho.names (hnames.imp ?_)
    rintro name o ⟨hname, ho⟩
    rw [ho]
    exact iff_of_false hname Bool.false_ne_true
  · exact ho.taken
  · rw [hpending]
    exact ho.nodup
  · rw [hpending]
    exact ho.bounded
  · exact ho.epochs
  · rw [hpending]
    exact ho.before
  · rw [hpending]
    exact ho.unkept

/-- A stop returns: its number is new, and so is no tag that is registered. -/
theorem Ordered.push (ho : Ordered queue cleaning h) (name : CStr) :
    Ordered (queue ++ [name]) cleaning (h.push name) := by
  unfold History.push
  by_cases hname : name = cleanupToken
  · rw [if_pos hname]
    have hpending := pending_append h cleaning
      [.stop (h.stops + 1) h.accepted.length]
    have hfresh : h.stops + 1 ∉ h.pending cleaning ++ h.answered := by
      intro hmem
      exact Nat.not_succ_le_self _ (ho.bounded _ hmem)
    constructor
    · exact List.rel_append ho.names (.cons (iff_of_true hname rfl) .nil)
    · exact ho.taken
    · show (History.pending { h with origins := _ } cleaning ++ h.answered).Nodup
      rw [hpending]
      refine (List.perm_append_right_iff _ |>.mpr List.perm_append_comm).nodup_iff.mpr ?_
      exact List.nodup_cons.mpr ⟨hfresh, ho.nodup⟩
    · show ∀ n ∈ History.pending { h with origins := _ } cleaning ++ h.answered, n ≤ h.stops + 1
      rw [hpending]
      intro n hn
      simp only [List.mem_append] at hn
      rcases hn with (hn | hn) | hn
      · exact Nat.le_succ_of_le (ho.bounded n (List.mem_append_left _ hn))
      · exact (List.mem_singleton.mp hn).le
      · exact Nat.le_succ_of_le (ho.bounded n (List.mem_append_right _ hn))
    · exact fun r hr => Nat.le_succ_of_le (ho.epochs r hr)
    · show ∀ n ∈ History.pending { h with origins := _ } cleaning, _
      rw [hpending]
      intro n hn r hr
      rcases List.mem_append.mp hn with hn | hn
      · exact ho.before n hn r hr
      · rw [List.mem_singleton.mp hn]
        exact Nat.lt_succ_of_le (ho.epochs r hr)
    · exact fun _ => rfl
  · rw [if_neg hname]
    exact ho.append (.cons ⟨hname, rfl⟩ .nil)

/-- The work thread takes a name. -/
theorem Ordered.pop {name : CStr} (ho : Ordered (name :: queue) false h) :
    ∃ o rest, h.origins = o :: rest ∧
      Ordered queue (name = cleanupToken) { h with origins := rest, current := o } := by
  obtain ⟨o, rest, hname, hrest, horigins⟩ := List.forall₂_cons_left_iff.mp ho.names
  have hpending : ({ h with origins := rest, current := o } : History V).pending
      (name = cleanupToken) = h.pending false := by
    simp only [History.pending, horigins, decide_eq_true_eq]
    by_cases htoken : name = cleanupToken
    · rw [if_pos htoken, if_neg Bool.false_ne_true]
    · have hnone : o.number = none := by
        rw [← Option.not_isSome_iff_eq_none, ← hname]
        exact htoken
      rw [if_neg htoken, if_neg Bool.false_ne_true, List.filterMap_cons_none hnone]
  refine ⟨o, rest, horigins, hrest, ?_, ?_, ?_, ho.epochs, ?_, ?_⟩
  · intro htoken
    exact hname.mp (of_decide_eq_true htoken)
  · rw [hpending]
    exact ho.nodup
  · rw [hpending]
    exact ho.bounded
  · rw [hpending]
    exact ho.before
  · rw [hpending]
    exact ho.unkept

/-- The clean-up is run for the stop it comes from. -/
theorem Ordered.answer (ho : Ordered queue true h) :
    ∃ n k, h.current = .stop n k ∧ n ∉ h.answered ∧ (∀ r ∈ h.registered, r.2.2 < n) ∧
      h.kept = [] ∧ Ordered queue false { h with answered := n :: h.answered } := by
  obtain ⟨n, hnumber⟩ := Option.isSome_iff_exists.mp (ho.taken rfl)
  obtain ⟨k, hcurrent⟩ : ∃ k, h.current = .stop n k := by
    cases hcurrent : h.current with
    | stop n' k =>
      rw [hcurrent] at hnumber
      obtain rfl := Option.some.inj hnumber
      exact ⟨k, rfl⟩
    | frame =>
      rw [hcurrent] at hnumber
      cases hnumber
    | write =>
      rw [hcurrent] at hnumber
      cases hnumber
  have hpending : h.pending true = n :: h.pending false := by
    simp only [History.pending, if_true, hcurrent]
    rfl
  have hmem : n ∈ h.pending true := by
    rw [hpending]
    exact List.mem_cons_self
  have hperm : (h.pending false ++ n :: h.answered).Perm (h.pending true ++ h.answered) := by
    rw [hpending]
    exact List.perm_middle
  have hnodup := ho.nodup
  rw [hpending, List.cons_append] at hnodup
  refine ⟨n, k, hcurrent, ?_, ho.before n hmem, ho.unkept (List.ne_nil_of_mem hmem), ?_⟩
  · exact fun hanswered => (List.nodup_cons.mp hnodup).1 (List.mem_append_right _ hanswered)
  · constructor
    · exact ho.names
    · exact fun hfalse => nomatch hfalse
    · exact hperm.nodup_iff.mpr ho.nodup
    · exact fun m hm => ho.bounded m (hperm.mem_iff.mp hm)
    · exact ho.epochs
    · intro m hm
      refine ho.before m ?_
      rw [hpending]
      exact List.mem_cons_of_mem _ hm
    · exact fun _ => ho.unkept (List.ne_nil_of_mem hmem)

/-- No clean-up is on its way. -/
theorem Ordered.pending_nil (ho : Ordered queue false h) (hqueue : cleanupToken ∉ queue) :
    h.pending false = [] := by
  show h.origins.filterMap Origin.number = []
  have hnames := ho.names
  clear ho
  generalize h.origins = origins at hnames
  induction hnames with
  | nil => rfl
  | cons hhead _ ih =>
    rw [List.mem_cons, not_or] at hqueue
    rw [List.filterMap_cons_none, ih hqueue.2]
    rw [← Option.not_isSome_iff_eq_none, ← hhead]
    exact fun heq => hqueue.1 heq.symm

/-- A registration that no pending clean-up takes away. -/
theorem Ordered.register (ho : Ordered queue false h) (hqueue : cleanupToken ∉ queue)
    (name tagName : CStr) :
    Ordered queue false
      { h with
        registered := (name, tagName, h.stops) :: h.registered
        kept := (name, tagName) :: h.kept } := by
  have hnil := ho.pending_nil hqueue
  refine ⟨ho.names, ho.taken, ho.nodup, ho.bounded, ?_, ?_, ?_⟩
  · intro r hr
    rcases List.mem_cons.mp hr with rfl | hr
    · exact Nat.le_refl _
    · exact ho.epochs r hr
  · intro n hn
    have hn : n ∈ h.pending false := hn
    rw [hnil] at hn
    cases hn
  · exact fun hne => absurd hnil hne

end

/-! ## Runs -/

/-- What an undisturbed run keeps. -/
structure Sound (x : Watched V) : Prop where
  ordered : Ordered x.1.comms.tagGroupQueue x.1.work.cleaning x.2
  remains : Remains x

/-- A method keeps the history of the queue. -/
theorem sound_call {m : Machine V} {h : History V} (hsound : Sound (m, h)) {c : Call V}
    (hpushing : m.pushing = none) (hc : m.Undisturbed (.call c)) :
    Sound ({ m with comms := (m.comms.call c).2, pushing := (m.comms.call c).1 },
      h.call m.comms c) := by
  obtain ⟨ho, hr⟩ := hsound
  cases c with
  | registerTagGroup name pollingInterval protocol =>
    constructor
    · show Ordered (m.comms.registerTagGroup name pollingInterval protocol).tagGroupQueue _ _
      rw [registerTagGroup_queue]
      exact ho.congr rfl rfl rfl rfl rfl (List.filter_subset_self _)
    · intro r hmem
      obtain ⟨hmem, hne⟩ := List.mem_filter.mp hmem
      exact tagExists_registerTagGroup (hr r hmem) (of_decide_eq_true hne) _ _
  | registerTag name tagName ty =>
    by_cases hregistrable : m.comms.Registrable name tagName
    · obtain ⟨htrue, hthere⟩ := registerTag_true ty hregistrable
      have hpending := hc hpushing hregistrable
      rw [Machine.cleanupPending, Bool.or_eq_false_iff, List.contains_eq_mem,
        decide_eq_false_iff_not] at hpending
      simp only [History.call, htrue, if_true]
      constructor
      · show Ordered (m.comms.registerTag name tagName ty).2.tagGroupQueue m.work.cleaning _
        rw [registerTag_queue, hpending.1]
        simp only [hpending.1] at ho
        exact ho.register hpending.2 name tagName
      · intro r hmem
        rcases List.mem_cons.mp hmem with rfl | hmem
        · exact hthere
        · exact tagExists_registerTag (hr r hmem) name tagName ty
    · simp only [History.call, registerTag_false ty hregistrable, Bool.false_eq_true, if_false]
      constructor
      · show Ordered (m.comms.registerTag name tagName ty).2.tagGroupQueue m.work.cleaning _
        rw [registerTag_queue]
        exact ho
      · exact fun r hmem => tagExists_registerTag (hr r hmem) name tagName ty
  | setEnableComms value => exact ⟨ho, hr⟩
  | setSimRunning value =>
    cases value with
    | true => exact ⟨ho, hr⟩
    | false => exact ⟨ho.congr rfl rfl rfl rfl rfl (List.Subset.refl _), hr⟩
  | process ticks =>
    constructor
    · show Ordered (m.comms.process ticks).2.tagGroupQueue _ _
      rw [process_queue]
      refine ho.append ?_
      rw [List.forall₂_map_right_iff, List.forall₂_same]
      intro name hname
      exact ⟨fun heq => hc hpushing (heq ▸ hname), rfl⟩
    · exact fun r hmem => tagExists_process (hr r hmem) ticks
  | write w =>
    constructor
    · show Ordered (m.comms.write w).2.tagGroupQueue _ (h.call m.comms (.write w))
      rw [write_queue, History.call]
      split
      · exact ho.congr rfl rfl rfl rfl rfl (List.Subset.refl _)
      · exact ho
    · simp only [History.call, State.call, State.write]
      split
      · exact hr
      · exact hr
  | clearTagGroups =>
    simp only [History.call, State.call]
    constructor
    · show Ordered m.comms.clearTagGroups.tagGroupQueue _ _
      rw [clearTagGroups_queue]
      split
      · exact ho
      · exact ho.congr rfl rfl rfl rfl rfl (List.nil_subset _)
    · unfold State.clearTagGroups
      split
      · exact hr
      · exact fun r hmem => nomatch hmem

/-- A name that is pushed is written to the history. -/
theorem sound_push {m : Machine V} {h : History V} (hsound : Sound (m, h)) (name : CStr)
    {m' : Machine V} (hcomms : m'.comms = m.comms.queueTagGroup name)
    (hwork : m'.work.cleaning = m.work.cleaning) : Sound (m', h.push name) := by
  constructor
  · show Ordered m'.comms.tagGroupQueue m'.work.cleaning (h.push name)
    rw [hcomms, hwork]
    exact hsound.ordered.push name
  · intro r hmem
    show m'.comms.tagExists r.1 r.2 = true
    rw [hcomms]
    unfold History.push at hmem
    split at hmem
    · cases hmem
    · exact hsound.remains r hmem

/-- A step of the work thread keeps the history of the queue. -/
theorem sound_workStep {m : Machine V} {h : History V} (hsound : Sound (m, h)) (handed : Handed)
    (polled : Polled) : Sound (m.workStep handed polled, h.workStep m polled) := by
  obtain ⟨ho, hr⟩ := hsound
  unfold Machine.workStep History.workStep
  cases hwork : m.work with
  | pop =>
    simp only [hwork] at ho
    cases hqueue : m.comms.tagGroupQueue with
    | nil =>
      simp only [hqueue] at ho
      simp only [History.pop, List.forall₂_nil_left_iff.mp ho.names]
      exact ⟨by simpa only [hqueue, hwork] using ho, hr⟩
    | cons name rest =>
      simp only [hqueue] at ho
      obtain ⟨o, origins, horigins, ho'⟩ := ho.pop
      simp only [History.pop, horigins]
      exact ⟨ho', hr⟩
  | flush name first =>
    simp only [hwork] at ho
    simp only
    cases m.comms.writeQueue with
    | nil =>
      cases first with
      | true => exact ⟨ho, hr⟩
      | false => exact ⟨ho, hr⟩
    | cons w rest => exact ⟨ho, hr⟩
  | handing name first w =>
    simp only [hwork] at ho
    constructor
    · exact ho.congr rfl rfl rfl rfl rfl (List.Subset.refl _)
    · exact fun r hmem => tagExists_processWrite (hr r hmem) w handed
  | cleanup name =>
    simp only [hwork] at ho
    obtain ⟨n, k, hcurrent, -, -, hkept, ho'⟩ := ho.answer
    simp only [hcurrent]
    refine ⟨ho'.congr rfl hcurrent.symm rfl rfl rfl (List.Subset.refl _), ?_⟩
    intro r hmem
    have hmem : r ∈ h.kept := hmem
    rw [hkept] at hmem
    cases hmem
  | process name =>
    simp only [hwork] at ho
    simp only
    constructor
    · have hidle : (((m.comms.processTagGroup name polled).1.map Work.push).getD .pop :
          Work V).cleaning = false := by
        cases (m.comms.processTagGroup name polled).1 <;> rfl
      show Ordered (m.comms.processTagGroup name polled).2.tagGroupQueue _ _
      rw [processTagGroup_queue, hidle]
      split
      · exact ho.congr rfl rfl rfl rfl rfl (List.Subset.refl _)
      · exact ho
    · have hthere := fun r hmem => tagExists_processTagGroup (hr r hmem) name polled
      split
      · exact hthere
      · exact hthere
  | push name => exact sound_push ⟨ho, hr⟩ name rfl (by rw [hwork]; rfl)

/-- Every undisturbed step keeps the history of the queue. -/
theorem sound_step (x : Watched V) (l : Label V) (hsound : Sound x) (hl : x.1.Undisturbed l) :
    Sound (Watched.step x l) := by
  obtain ⟨m, h⟩ := x
  cases l with
  | call c =>
    show Sound (m.step (.call c), if m.pushing.isSome then h else h.call m.comms c)
    unfold Machine.step
    cases hpushing : m.pushing with
    | none => exact sound_call hsound hpushing hl
    | some name => exact hsound
  | push =>
    show Sound (m.step .push, (m.pushing.map h.push).getD h)
    unfold Machine.step
    cases hpushing : m.pushing with
    | none => exact hsound
    | some name => exact sound_push hsound name rfl rfl
  | work handed polled => exact sound_workStep hsound handed polled

/-- At first the queue has no history. -/
theorem sound_init : Sound (Watched.init : Watched V) := by
  constructor
  · exact ⟨.nil, fun hfalse => (nomatch hfalse), .nil, fun n hn => (nomatch hn),
      fun r hr => (nomatch hr), fun n hn => (nomatch hn), fun _ => rfl⟩
  · exact fun r hr => nomatch hr

/-- A clean-up that is run in a sound state answers its stop. -/
theorem Sound.responds {x : Watched V} (hsound : Sound x) (l : Label V) : Responds x l := by
  cases l with
  | work handed polled =>
    intro name hwork
    have ho := hsound.ordered
    rw [hwork] at ho
    obtain ⟨n, k, hcurrent, hnew, hbefore, -⟩ := ho.answer
    exact ⟨n, k, hcurrent, hnew, fun r hr _ => hbefore r hr⟩
  | call c => trivial
  | push => trivial

/-- In every undisturbed run each clean-up the work thread runs is the first for a stop and takes no
tag registered after it, and a tag that was registered is there until the next stop, clear or
registration of its group. -/
theorem stop_cleans_what_it_stopped (ops : List (Label V))
    (h : Meets Machine.step Machine.Undisturbed {} ops) :
    Meets Watched.step Responds Watched.init ops ∧
      Along Watched.step Remains Watched.init ops := by
  have hundisturbed : Meets Watched.step (fun x => x.1.Undisturbed) Watched.init ops :=
    (meets_watch Machine.step History.note Machine.Undisturbed Watched.init ops).mpr h
  constructor
  · exact Meets.mono _ sound_step (fun x l hsound _ => hsound.responds l) sound_init hundisturbed
  · exact (along_of_meets _ sound_step sound_init hundisturbed).mono _ fun x hsound =>
      hsound.remains

/-- The tag is registered again after the clean-up of a stop, and polled. -/
def stoppedAndStarted : List (Label Bool) :=
  started "G".toList ++ [.call (.setSimRunning false), .push] ++ List.replicate 5 quiet ++
    [.call (.setSimRunning true), .call (.registerTag "G".toList "MB0".toList .uint8),
      .call (.process 0)] ++ List.replicate 3 quiet

/-- A stop and a start without another call between. -/
theorem stopped_and_started :
    (Meets Machine.step Machine.Undisturbed {} stoppedAndStarted ∧
      (run Machine.step {} stoppedAndStarted).comms.tagExists "G".toList "MB0".toList = true) ∧
    Meets Watched.step Responds Watched.init stoppedAndStarted ∧
      Along Watched.step Remains Watched.init stoppedAndStarted :=
  ⟨by decide, stop_cleans_what_it_stopped _ (by decide)⟩

/-- The simulation is stopped and started, and the tag registered, before the work thread gets to
the clean-up. -/
def lateCleanUp : List (Label Bool) :=
  started "G".toList ++ [.call (.setSimRunning false), .push, .call (.setSimRunning true),
    .call (.registerTag "G".toList "MB0".toList .uint8)] ++ List.replicate 3 quiet

/-- A group of the name that stands for a clean-up is polled. -/
def namesakePolled : List (Label Bool) :=
  started cleanupToken ++ [.call (.process 0)] ++ List.replicate 3 quiet

/-- A clean-up that comes after a registration, and one that is only a poll of a namesake. -/
theorem clean_up_late_or_unasked :
    ¬ Along Watched.step Remains Watched.init lateCleanUp ∧
      ¬ Meets Watched.step Responds Watched.init namesakePolled := by
  constructor
  · intro h
    have hlast : Remains (run Watched.step Watched.init lateCleanUp) := Along.last _ h
    have hthere := hlast ("G".toList, "MB0".toList) (by decide)
    revert hthere
    decide
  · intro h
    have hlast := (meets_iff_split _ _ _ _).mp h
      (started cleanupToken ++ [.call (.process 0)] ++ List.replicate 2 quiet) quiet [] rfl
    obtain ⟨n, k, hcurrent, -⟩ := hlast cleanupToken rfl
    cases hcurrent

end OipComms.Comms
