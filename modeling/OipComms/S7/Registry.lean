import OipComms.S7.Handles

/-!
# The connections a history leaves behind

`S7_tag_create` inserts the connection of a new host before it looks at the tag's name, and
`S7_tag_destroy` removes a connection when it has taken the last tag from it. A connection outlives
its tags when the name is refused, and when the destruction of a handle is answered by another
connection. `registry_balanced` says that nothing else does: where each creation for a new host is
accepted and each handle is destroyed while its host's connection is the first, the connections are
those of the handles that are alive.
-/

namespace OipComms.S7

open Run

universe u

variable {σ : Type u} (net : Net σ)

/-- What is said of the connections between two calls. -/
structure Session.Registered (g : Session σ) : Prop where
  tags : ∀ plc ∈ g.lib.s7Plcs, plc.tags ≠ []
  hosts : (g.lib.s7Plcs.map S7Plc.plcHostName).Nodup
  emptied : g.live = [] → g.lib.s7Plcs = []

/-- A `S7_tag_create` that returns -1 leaves the connections as they are. -/
def Session.KeepsRefused (g : Session σ) : Call → Prop
  | .create host tagName => (s7TagCreate net g.lib host tagName).1 = .ok (-1) →
    (s7TagCreate net g.lib host tagName).2.s7Plcs = g.lib.s7Plcs
  | .destroy _ => True

/-- The calls that go wrong in none of the ways there are: a name refused on a new host, an
identifier given out twice on one host, a handle destroyed while its connection is not the first. -/
def Session.Balanced (g : Session σ) : Call → Prop
  | .create host tagName =>
    (accepts tagName = true ∨ ∃ plc ∈ g.lib.s7Plcs, plc.plcHostName = host) ∧
    ∀ plc ∈ g.lib.s7Plcs, plc.plcHostName = host →
      ∀ tag ∈ plc.tags, tag.identifier ≠ g.lib.tagIdCounter
  | .destroy identifier =>
    ∀ e ∈ g.live, e.handle = identifier →
      ∀ plc ∈ g.lib.s7Plcs.head?, plc.plcHostName = e.host

instance (g : Session σ) (c : Call) : Decidable (g.Balanced c) := by
  cases c <;> unfold Session.Balanced <;> infer_instance

/-! ## The balance -/

/-- A connection in balance: it has tags, and a live handle for each of them. -/
structure S7Plc.Kept (live : List LiveHandle) (plc : S7Plc σ) : Prop where
  identifier : plc.identifier = 1
  tags : plc.tags ≠ []
  nodup : (plc.tags.map S7Tag.identifier).Nodup
  small : ∀ tag ∈ plc.tags, tag.identifier < 16777216
  alive : ∀ tag ∈ plc.tags, ∃ e ∈ live,
    e.handle = 16777216 + tag.identifier ∧ e.host = plc.plcHostName

/-- What the calls in balance keep. -/
structure Session.InBalance (g : Session σ) : Prop where
  plcIdCounter : g.lib.plcIdCounter = 0
  counter : g.lib.tagIdCounter < 16777216
  hosts : (g.lib.s7Plcs.map S7Plc.plcHostName).Nodup
  plcs : ∀ plc ∈ g.lib.s7Plcs, plc.Kept g.live

/-- At first there are no handles. -/
theorem Session.inBalance_start : ({} : Session σ).InBalance :=
  ⟨rfl, Nat.zero_lt_of_lt (show 0 < 16777216 by omega), List.nodup_nil,
    fun _ h => (List.not_mem_nil h).elim⟩

/-- Without a live handle there is no tag, and without a tag no connection. -/
theorem Session.InBalance.registered {g : Session σ} (hJ : g.InBalance) : g.Registered := by
  refine ⟨fun plc hplc => (hJ.plcs plc hplc).tags, hJ.hosts, fun hlive => ?_⟩
  rw [List.eq_nil_iff_forall_not_mem]
  intro plc hplc
  have hkept := hJ.plcs plc hplc
  obtain ⟨tag, htag⟩ := List.exists_mem_of_ne_nil _ hkept.tags
  obtain ⟨e, he, -⟩ := hkept.alive tag htag
  rw [hlive] at he
  exact List.not_mem_nil he

/-- A connection that keeps its live handles does so among more. -/
theorem S7Plc.Kept.mono {live live' : List LiveHandle} {plc : S7Plc σ} (h : plc.Kept live)
    (hsub : ∀ tag ∈ plc.tags, ∀ e ∈ live, e.handle = 16777216 + tag.identifier →
      e.host = plc.plcHostName → e ∈ live') : plc.Kept live' := by
  refine ⟨h.identifier, h.tags, h.nodup, h.small, fun tag htag => ?_⟩
  obtain ⟨e, he, hhandle, hhost⟩ := h.alive tag htag
  exact ⟨e, hsub tag htag e he hhandle hhost, hhandle, hhost⟩

/-- A connection that registers a tag under a new identifier is in balance with the handle for it,
if the tags it had were. -/
theorem kept_addTag {live : List LiveHandle} {plc : S7Plc σ} {tag : S7Tag} (area : Area)
    (hidentifier : plc.identifier = 1) (hnodup : (plc.tags.map S7Tag.identifier).Nodup)
    (hsmall : ∀ t ∈ plc.tags, t.identifier < 16777216)
    (halive : ∀ t ∈ plc.tags, ∃ e ∈ live,
      e.handle = 16777216 + t.identifier ∧ e.host = plc.plcHostName)
    (htag : tag.identifier < 16777216) (hnew : ∀ t ∈ plc.tags, t.identifier ≠ tag.identifier) :
    (plc.addTag area tag).Kept (⟨16777216 + tag.identifier, plc.plcHostName, tag⟩ :: live) := by
  refine ⟨by rw [S7Plc.addTag_identifier]; exact hidentifier, ?_, ?_, fun t ht => ?_, fun t ht => ?_⟩
  · rw [S7Plc.addTag_tags]
    exact List.append_ne_nil_of_right_ne_nil _ (List.cons_ne_nil _ _)
  · rw [S7Plc.addTag_tags, List.map_append, List.map_cons, List.map_nil]
    refine List.nodup_append.mpr ⟨hnodup, List.nodup_singleton _, ?_⟩
    rintro x hx y hy rfl
    obtain ⟨t, ht, rfl⟩ := List.mem_map.mp hx
    exact hnew t ht (List.mem_singleton.mp hy)
  · rcases List.mem_append.mp ht with ht | ht
    · exact hsmall t ht
    · rw [List.mem_singleton.mp ht]
      exact htag
  · rw [S7Plc.addTag_plcHostName]
    rcases List.mem_append.mp ht with ht | ht
    · obtain ⟨e, he, hhandle⟩ := halive t ht
      exact ⟨e, List.mem_cons_of_mem _ he, hhandle⟩
    · rw [List.mem_singleton.mp ht]
      exact ⟨_, List.mem_cons_self, rfl, rfl⟩

/-! ## The calls -/

/-- A tag that is created is a live handle more. -/
theorem Session.InBalance.create {g : Session σ} (hJ : g.InBalance) {host tagName : CStr}
    (hC : g.Balanced (.create host tagName)) : (g.step net (.create host tagName)).InBalance := by
  obtain ⟨hname, hfresh⟩ := hC
  have hcounter := nextTagId_lt g.lib.tagIdCounter
  rcases s7TagCreate_cases net g.lib host tagName with
    ⟨pre, plc, post, hsplit, rfl, -, heq⟩ | ⟨hmiss, heq⟩
  · have hmem : plc ∈ g.lib.s7Plcs := by rw [hsplit]; exact List.mem_append_right _ List.mem_cons_self
    have hplc := hJ.plcs plc hmem
    have hhosts : ((pre ++ (plc.s7RegisterTag g.lib.tagIdCounter tagName).2 :: post).map
        S7Plc.plcHostName).Nodup := by
      have hmap : (pre ++ (plc.s7RegisterTag g.lib.tagIdCounter tagName).2 :: post).map
          S7Plc.plcHostName = g.lib.s7Plcs.map S7Plc.plcHostName := by
        simp only [hsplit, List.map_append, List.map_cons, register_plcHostName]
      exact hmap ▸ hJ.hosts
    simp only [Session.step, heq]
    refine ⟨hJ.plcIdCounter, hcounter, hhosts, fun p hp => ?_⟩
    rcases liveAfter_cases hplc.identifier hJ.counter plc.plcHostName tagName with
      ⟨hno, hsame⟩ | ⟨-, tag, area, hid, hreg, hnew⟩
    · rw [hsame]
      rw [register_refused hno, ← hsplit] at hp
      exact hJ.plcs p hp
    · rw [hnew]
      rw [hreg] at hp
      have hold : p ∈ pre ++ plc :: post →
          p.Kept (⟨16777216 + tag.identifier, plc.plcHostName, tag⟩ :: g.live) := fun h =>
        (hJ.plcs p (by rw [hsplit]; exact h)).mono fun _ _ _ he _ _ => List.mem_cons_of_mem _ he
      rcases List.mem_append.mp hp with hp | hp
      · exact hold (List.mem_append_left _ hp)
      · rcases List.mem_cons.mp hp with rfl | hp
        · refine kept_addTag area hplc.identifier hplc.nodup hplc.small hplc.alive
            (by rw [hid]; exact hJ.counter) fun t ht => ?_
          rw [hid]
          exact hfresh plc hmem rfl t ht
        · exact hold (List.mem_append_right _ (List.mem_cons_of_mem _ hp))
  · -- a connection of its own for the host, and the name is one that is accepted
    have haccepts : accepts tagName = true := by
      rcases hname with haccepts | ⟨plc, hplc, hhost⟩
      · exact haccepts
      · exact absurd hhost (hmiss plc hplc)
    have hone : (S7Plc.new net g.lib.plcIdCounter host).identifier = 1 := by
      rw [hJ.plcIdCounter]
      rfl
    simp only [Session.step, heq]
    rcases liveAfter_cases hone hJ.counter host tagName with
      ⟨hno, -⟩ | ⟨-, tag, area, hid, hreg, hnew⟩
    · rw [haccepts] at hno; cases hno
    · rw [hnew, hreg]
      refine ⟨hJ.plcIdCounter, hcounter, ?_, fun p hp => ?_⟩
      · rw [List.map_append, List.map_cons, List.map_nil, S7Plc.addTag_plcHostName]
        refine List.nodup_append.mpr ⟨hJ.hosts, List.nodup_singleton _, ?_⟩
        rintro x hx y hy rfl
        obtain ⟨p, hp, rfl⟩ := List.mem_map.mp hx
        exact hmiss p hp (List.mem_singleton.mp hy)
      · rcases List.mem_append.mp hp with hp | hp
        · exact (hJ.plcs p hp).mono fun _ _ _ he _ _ => List.mem_cons_of_mem _ he
        · rw [List.mem_singleton.mp hp]
          exact kept_addTag area hone List.nodup_nil (fun _ h => (List.not_mem_nil h).elim)
            (fun _ h => (List.not_mem_nil h).elim) (by rw [hid]; exact hJ.counter)
            (fun _ h => (List.not_mem_nil h).elim)

/-- What is left of a tag list with distinct identifiers has no tag of the erased identifier. -/
theorem not_hasId_of_mem_erased {tags : List S7Tag} (hnodup : (tags.map S7Tag.identifier).Nodup)
    {identifier : Int} {tag : S7Tag} (htag : tag ∈ tags.eraseP (hasId identifier)) :
    hasId identifier tag = false := by
  by_contra hhas
  rw [Bool.not_eq_false] at hhas
  obtain ⟨erased, front, back, hfront, herased, hsplit, hleft⟩ :=
    List.exists_of_eraseP (List.mem_of_mem_eraseP htag) hhas
  rw [hleft] at htag
  have hsame : erased.identifier = tag.identifier := by
    have htagPart : (tag.identifier : Int) = tagPart identifier := of_decide_eq_true hhas
    have herasedPart : (erased.identifier : Int) = tagPart identifier := of_decide_eq_true herased
    omega
  rcases List.mem_append.mp htag with hmem | hmem
  · exact hfront tag hmem hhas
  · rw [hsplit, List.map_append, List.map_cons] at hnodup
    have hback := (List.nodup_cons.mp (List.nodup_append.mp hnodup).2.1).1
    exact hback (hsame ▸ List.mem_map_of_mem hmem)

/-- A handle that is destroyed on its own host is a tag less. -/
theorem Session.InBalance.destroy {g : Session σ} (hJ : g.InBalance) {identifier : Int}
    (hC : g.Balanced (.destroy identifier)) : (g.step net (.destroy identifier)).InBalance := by
  have hids : ∀ p ∈ g.lib.s7Plcs, p.identifier = 1 := fun p hp => (hJ.plcs p hp).identifier
  have hsurvives : ∀ e ∈ g.live, e.handle ≠ identifier →
      e ∈ g.live.filter fun e => e.handle ≠ identifier :=
    fun e he hne => List.mem_filter.mpr ⟨he, decide_eq_true hne⟩
  rcases destroyIn_front hids identifier with ⟨hmiss, hnone⟩ | ⟨plc, rest, hsplit, -, hsome⟩
  · simp only [Session.step, s7TagDestroy, hnone]
    refine ⟨hJ.plcIdCounter, hJ.counter, hJ.hosts, fun p hp => (hJ.plcs p hp).mono ?_⟩
    -- the handle of a registered tag is one that the search finds
    intro tag htag e he hhandle _
    refine hsurvives e he fun heq => ?_
    have hfinds : hasPlcId identifier p = true := by
      rw [← heq, hhandle, hasPlcId_handle ((hJ.plcs p hp).small tag htag)]
      exact decide_eq_true (hids p hp)
    rw [hmiss p hp] at hfinds
    cases hfinds
  · have hplc := hJ.plcs plc (by rw [hsplit]; exact List.mem_cons_self)
    have hhosts : plc.plcHostName ∉ rest.map S7Plc.plcHostName ∧
        (rest.map S7Plc.plcHostName).Nodup := by
      have h := hJ.hosts
      rw [hsplit, List.map_cons] at h
      exact List.nodup_cons.mp h
    have hrest : ∀ p ∈ rest, p.Kept (g.live.filter fun e => e.handle ≠ identifier) := by
      intro p hp
      refine (hJ.plcs p (by rw [hsplit]; exact List.mem_cons_of_mem _ hp)).mono ?_
      intro _ _ e he _ hhost
      refine hsurvives e he fun heq => ?_
      have hfirst := hC e he heq plc (by rw [hsplit]; rfl)
      exact hhosts.1 (hfirst.trans hhost ▸ List.mem_map_of_mem hp)
    simp only [Session.step, s7TagDestroy, hsome]
    by_cases hempty : (plc.s7UnregisterTag identifier).tags.isEmpty = true
    · rw [if_pos hempty]
      exact ⟨hJ.plcIdCounter, hJ.counter, hhosts.2, hrest⟩
    · rw [if_neg hempty]
      refine ⟨hJ.plcIdCounter, hJ.counter, List.nodup_cons.mpr hhosts, fun p hp => ?_⟩
      rcases List.mem_cons.mp hp with rfl | hp
      · refine ⟨hplc.identifier, fun hnil => hempty (List.isEmpty_iff.mpr hnil),
          hplc.nodup.sublist (List.eraseP_sublist.map _),
          fun tag htag => hplc.small tag (List.mem_of_mem_eraseP htag), fun tag htag => ?_⟩
        have hold := List.mem_of_mem_eraseP htag
        obtain ⟨e, he, hhandle, hhost⟩ := hplc.alive tag hold
        refine ⟨e, hsurvives e he fun heq => ?_, hhandle, hhost⟩
        have hother := not_hasId_of_mem_erased hplc.nodup htag
        rw [← heq, hhandle, hasId_handle (hplc.small tag hold), decide_eq_false_iff_not] at hother
        exact hother rfl
      · exact hrest p hp

/-- Every balanced call keeps the balance. -/
theorem Session.InBalance.step {g : Session σ} (hJ : g.InBalance) {c : Call} (hC : g.Balanced c) :
    (g.step net c).InBalance := by
  cases c with
  | create host tagName => exact hJ.create net hC
  | destroy identifier => exact hJ.destroy net hC

/-- A name that is answered with -1 is refused, and leaves its connection as it is. -/
theorem refused_of_neg {plc : S7Plc σ} {c : Nat} {tagName : CStr}
    (h : (plc.s7RegisterTag c tagName).1 = .ok (-1)) :
    accepts tagName = false ∧ (plc.s7RegisterTag c tagName).2 = plc := by
  rcases plc.s7RegisterTag_cases c tagName with ⟨hno, hsame, -⟩ | ⟨-, tag, area, -, -, -, hreg⟩
  · exact ⟨hno, hsame⟩
  · rw [hreg] at h
    have hneg : plc.handle tag = -1 := Except.ok.inj h
    have hpos := plc.handle_nonneg tag
    omega

/-- A name refused for a host that has a connection changes no connection. -/
theorem Session.Balanced.keepsRefused {g : Session σ} {c : Call} (hC : g.Balanced c) :
    g.KeepsRefused net c := by
  cases c with
  | destroy identifier => trivial
  | create host tagName =>
    intro hret
    rcases s7TagCreate_cases net g.lib host tagName with
      ⟨pre, plc, post, hsplit, -, -, heq⟩ | ⟨hmiss, heq⟩
    · rw [heq] at hret ⊢
      simp only [(refused_of_neg hret).2, hsplit]
    · rw [heq] at hret
      rcases hC.1 with haccepts | ⟨plc, hplc, hhost⟩
      · rw [(refused_of_neg hret).1] at haccepts
        cases haccepts
      · exact absurd hhost (hmiss plc hplc)

/-! ## Every history -/

/-- In a history whose calls are all in balance, a creation that returns -1 changes no connection,
and between the calls every connection has a tag and a host of its own, and there is none when every
handle has been destroyed. -/
theorem registry_balanced (calls : List Call)
    (hcalls : Meets (Session.step net) Session.Balanced {} calls) :
    Along (Session.step net) Session.Registered {} calls ∧
      Meets (Session.step net) (Session.KeepsRefused net) {} calls := by
  have hstep : ∀ (g : Session σ) c, g.InBalance → g.Balanced c → (g.step net c).InBalance :=
    fun _ _ hJ hC => hJ.step net hC
  constructor
  · exact (along_of_meets (Session.step net) hstep Session.inBalance_start hcalls).mono
      (Session.step net) fun _ hJ => hJ.registered
  · exact hcalls.mono (Session.step net) hstep (fun _ _ _ hC => hC.keepsRefused net)
      Session.inBalance_start

/-- Two hosts, a name that is refused on one of them, and the handles destroyed in the order of
their creation. -/
theorem two_hosts_balanced :
    Along (Session.step deadNet) Session.Registered {}
        [.create ['P'] ['M', 'B', '0'], .create ['Q'] ['Q', 'W', '2'], .create ['P'] ['X', 'X'],
          .destroy 16777216, .destroy 16777217] ∧
      Meets (Session.step deadNet) (Session.KeepsRefused deadNet) {}
        [.create ['P'] ['M', 'B', '0'], .create ['Q'] ['Q', 'W', '2'], .create ['P'] ['X', 'X'],
          .destroy 16777216, .destroy 16777217] :=
  registry_balanced deadNet _ (by decide)

/-- A name that is refused on a new host leaves a connection without a tag. -/
theorem refused_name_leaves_plc :
    (s7TagCreate deadNet {} ['P'] ['X', 'X']).1 = .ok (-1) ∧
      ¬ Session.KeepsRefused deadNet {} (.create ['P'] ['X', 'X']) ∧
      ¬ Along (Session.step deadNet) Session.Registered {} [.create ['P'] ['X', 'X']] := by
  refine ⟨rfl, fun hkeeps => ?_, fun halong => ?_⟩
  · have hempty := hkeeps rfl
    cases hempty
  · exact halong.2.tags _ List.mem_cons_self rfl

end OipComms.S7
