import OipComms.S7.Account
import OipComms.S7.Handles

/-!
# The library with one host

All connections answer to one identifier, so a handle is told from another only as long as there is
one connection. `OneHost` says that there is at most one, and which tags are registered on it. Each
entry point is described once by what it makes of these tags: `S7_tag_create` adds one or none,
`S7_tag_destroy` takes one away, and the others leave them as they are, whatever the socket answers.
-/

namespace OipComms.S7

open FirstMatch Slice

universe u

variable {σ : Type u}

/-- The tags of a connection as they were registered. -/
def S7Plc.table (plc : S7Plc σ) : List S7Tag := plc.tags.map S7Tag.registered

/-- The library has no connection but one for `host`, and `tags` are the tags registered there. -/
structure OneHost (host : CStr) (tags : List S7Tag) (s : S7State σ) : Prop where
  plcIdCounter : s.plcIdCounter = 0
  counter : s.tagIdCounter < 16777216
  plcs : s.s7Plcs = [] ∧ tags = [] ∨ ∃ plc, s.s7Plcs = [plc] ∧ plc.plcHostName = host ∧
    plc.identifier = 1 ∧ plc.table = tags
  fresh : ∀ tag ∈ tags, tag.identifier < s.tagIdCounter
  nodup : (tags.map S7Tag.identifier).Nodup

/-! ## Calls by handle -/

/-- A connection before and after what neither renames it nor changes which tags it has. -/
structure S7Plc.Serves (plc plc' : S7Plc σ) : Prop where
  plcHostName : plc'.plcHostName = plc.plcHostName
  identifier : plc'.identifier = plc.identifier
  table : plc'.table = plc.table

/-- What `Serves` is about. -/
def S7Plc.row (plc : S7Plc σ) : CStr × Nat × List S7Tag :=
  (plc.plcHostName, plc.identifier, plc.table)

/-- A connection that goes on serving has its row of the registry. -/
theorem S7Plc.Serves.row {plc plc' : S7Plc σ} (h : plc.Serves plc') : plc'.row = plc.row := by
  rw [S7Plc.row, h.plcHostName, h.identifier, h.table, S7Plc.row]

theorem S7Plc.Serves.refl (plc : S7Plc σ) : plc.Serves plc := ⟨rfl, rfl, rfl⟩

theorem S7Plc.Serves.trans {a b c : S7Plc σ} (h : a.Serves b) (h' : b.Serves c) : a.Serves c :=
  ⟨h'.plcHostName.trans h.plcHostName, h'.identifier.trans h.identifier, h'.table.trans h.table⟩

/-- Setting a value goes on serving. -/
theorem s7Write_serves (plc : S7Plc σ) (handle : Int) (value : UInt64) :
    plc.Serves (plc.s7Write handle value).2 := by
  rw [S7Plc.s7Write]
  split
  · rename_i b tags hmatch
    exact ⟨rfl, rfl, map_firstMatch (fun _ => rfl) hmatch⟩
  · exact S7Plc.Serves.refl plc

/-- A send changes the connection as an exchange does, and of the tag only that it is pending. -/
theorem s7SendTag_serves (net : Net σ) (plc : S7Plc σ) (tag : S7Tag) :
    plc.Serves (plc.s7SendTag net tag).2.1 ∧
      (plc.s7SendTag net tag).2.2.registered = tag.registered := by
  unfold S7Plc.s7SendTag
  split
  · exact ⟨S7Plc.Serves.refl plc, rfl⟩
  split
  · exact ⟨S7Plc.Serves.refl plc, rfl⟩
  rename_i area harea
  split
  · exact ⟨S7Plc.Serves.refl plc, rfl⟩
  have hkeeps : net.Keeps plc.Serves :=
    { close := fun h => ⟨h.plcHostName, h.identifier, h.table⟩
      recv := fun _ h => ⟨h.plcHostName, h.identifier, h.table⟩
      store := fun _ h => ⟨h.plcHostName, h.identifier, h.table⟩ }
  have hexchange : plc.Serves (({ plc with
      buff := overwrite plc.buff 0 (writeRequest area tag) } : S7Plc σ).tcpExchange net
        (writeRequest area tag)).2 := by
    refine (tcpExchange_keeps hkeeps (writeRequest area tag) ?_).2
    exact ⟨rfl, rfl, rfl⟩
  simp only
  split
  · exact ⟨hexchange, rfl⟩
  split
  · exact ⟨hexchange, rfl⟩
  · exact ⟨hexchange, rfl⟩

/-- Sending a tag goes on serving. -/
theorem sendTagById_serves (net : Net σ) (plc : S7Plc σ) (handle : Int) :
    plc.Serves (plc.sendTagById net handle).2 := by
  rw [S7Plc.sendTagById]
  split
  · rename_i ret plc' tags hmatch
    have htable : tags.map S7Tag.registered = plc.table :=
      map_firstMatch (f := plc.sendEntry net) (fun tag => (s7SendTag_serves net plc tag).2) hmatch
    obtain ⟨tag, -, hplc⟩ := firstMatch_fst hmatch
    obtain rfl := congrArg Prod.snd hplc
    obtain ⟨⟨hhost, hid, -⟩, -⟩ := s7SendTag_serves net plc tag
    exact ⟨hhost, hid, htable⟩
  · exact S7Plc.Serves.refl plc

/-- Flushing a list of tags goes on serving, and keeps what was registered. -/
theorem flushTags_serves (net : Net σ) (tags : List S7Tag) (plc : S7Plc σ) :
    plc.Serves (S7Plc.flushTags net tags plc).2.1 ∧
      (S7Plc.flushTags net tags plc).2.2.map S7Tag.registered = tags.map S7Tag.registered := by
  induction tags generalizing plc with
  | nil => exact ⟨S7Plc.Serves.refl plc, rfl⟩
  | cons tag rest ih =>
    rw [S7Plc.flushTags]
    split
    · obtain ⟨hserves, htag⟩ := s7SendTag_serves net plc tag
      obtain ⟨hrest, htags⟩ := ih (plc.s7SendTag net tag).2.1
      refine ⟨hserves.trans hrest, ?_⟩
      rw [List.map_cons, List.map_cons, htags, htag]
    · obtain ⟨hrest, htags⟩ := ih plc
      refine ⟨hrest, ?_⟩
      rw [List.map_cons, List.map_cons, htags]

/-- Flushing the pending writes goes on serving. -/
theorem flushPendingWrites_serves (net : Net σ) (plc : S7Plc σ) :
    plc.Serves (plc.flushPendingWrites net).2 := by
  obtain ⟨⟨hhost, hid, -⟩, htags⟩ := flushTags_serves net plc.tags plc
  exact ⟨hhost, hid, htags⟩

/-- What the polling thread of a connection may make of it: anything but its name and its tags. -/
def S7Plc.polledAs (plc seen : S7Plc σ) : S7Plc σ :=
  { seen with
    tags := plc.tags
    identifier := plc.identifier
    plcHostName := plc.plcHostName }

/-- What the polling thread makes of a connection goes on serving. -/
theorem polledAs_serves (plc seen : S7Plc σ) : plc.Serves (plc.polledAs seen) := ⟨rfl, rfl, rfl⟩

/-- `S7_tag_create` takes one number, whatever it answers. -/
theorem s7TagCreate_counter (net : Net σ) (s : S7State σ) (host tagName : CStr) :
    (s7TagCreate net s host tagName).2.tagIdCounter = nextTagId s.tagIdCounter := by
  rcases s7TagCreate_cases net s host tagName with ⟨_, _, _, -, -, -, heq⟩ | ⟨-, heq⟩
  · rw [heq]
  · rw [heq]

/-- A name is registered on the one connection there is. -/
theorem s7TagCreate_single {s : S7State σ} {plc : S7Plc σ} (hone : s.s7Plcs = [plc]) (net : Net σ)
    (tagName : CStr) :
    s7TagCreate net s plc.plcHostName tagName = ((plc.s7RegisterTag s.tagIdCounter tagName).1,
      { s with tagIdCounter := nextTagId s.tagIdCounter
               s7Plcs := [(plc.s7RegisterTag s.tagIdCounter tagName).2] }) := by
  simp only [s7TagCreate, hone, firstMatch, decide_true, if_true]

/-- A name is registered on a new connection. -/
theorem s7TagCreate_first {s : S7State σ} (hnone : s.s7Plcs = []) (net : Net σ)
    (host tagName : CStr) :
    s7TagCreate net s host tagName =
      (((S7Plc.new net s.plcIdCounter host).s7RegisterTag s.tagIdCounter tagName).1,
      { s with tagIdCounter := nextTagId s.tagIdCounter
               s7Plcs :=
                [((S7Plc.new net s.plcIdCounter host).s7RegisterTag s.tagIdCounter tagName).2] }) := by
  simp only [s7TagCreate, hnone, firstMatch, List.nil_append]

namespace OneHost

variable {host : CStr} {tags : List S7Tag} {s : S7State σ}

/-- What is done to the connections leaves the tags. -/
theorem modify (h : OneHost host tags s) {plcs : List (S7Plc σ)}
    (hplcs : plcs.map S7Plc.row = s.s7Plcs.map S7Plc.row) :
    OneHost host tags { s with s7Plcs := plcs } := by
  refine ⟨h.plcIdCounter, h.counter, ?_, h.fresh, h.nodup⟩
  rcases h.plcs with ⟨hnil, htags⟩ | ⟨plc, hone, hhost, hid, htable⟩
  · rw [hnil] at hplcs
    exact .inl ⟨List.map_eq_nil_iff.mp hplcs, htags⟩
  · rw [hone] at hplcs
    obtain ⟨plc', rfl, hrow⟩ := List.map_eq_singleton_iff.mp hplcs
    obtain ⟨hhost', hrow⟩ := Prod.mk.inj hrow
    obtain ⟨hid', htable'⟩ := Prod.mk.inj hrow
    exact .inr ⟨plc', rfl, hhost'.trans hhost, hid'.trans hid, htable'.trans htable⟩

/-- What goes on serving keeps the one host. -/
theorem onPlc (h : OneHost host tags s) (handle : Int) {act : S7Plc σ → Int × S7Plc σ}
    (hact : ∀ plc : S7Plc σ, plc.Serves (act plc).2) : OneHost host tags (S7.onPlc handle act s).2 := by
  unfold S7.onPlc
  split
  · rename_i ret plcs hmatch
    exact h.modify (map_firstMatch (fun plc => (hact plc).row) hmatch)
  · exact h

/-- `S7_write` keeps the one host. -/
theorem write (h : OneHost host tags s) (handle : Int) (value : UInt64) :
    OneHost host tags (s7WriteTag s handle value).2 :=
  h.onPlc handle fun plc => s7Write_serves plc handle value

theorem send (h : OneHost host tags s) (net : Net σ) (handle : Int) :
    OneHost host tags (s7TagWrite net s handle).2 :=
  h.onPlc handle fun plc => sendTagById_serves net plc handle

theorem flush (h : OneHost host tags s) (net : Net σ) (handle : Int) :
    OneHost host tags (s7TagFlush net s handle).2 :=
  h.onPlc handle fun plc => flushPendingWrites_serves net plc

/-- The polling thread of the `i`-th connection. -/
theorem polled (h : OneHost host tags s) (i : Nat) (seen : S7Plc σ) :
    OneHost host tags { s with s7Plcs := s.s7Plcs.modify i fun plc => plc.polledAs seen } := by
  refine h.modify (List.ext_getElem? fun j => ?_)
  rw [List.getElem?_map, List.getElem?_map, List.getElem?_modify]
  cases s.s7Plcs[j]? with
  | none => rfl
  | some plc =>
    by_cases hj : i = j
    · simp only [if_pos hj]
      exact congrArg some (polledAs_serves plc seen).row
    · simp only [if_neg hj]
      rfl

/-! ## Handles -/

/-- What registering a name on a connection comes to. -/
theorem register {plc : S7Plc σ} (hid : plc.identifier = 1) {c : Nat} (hc : c < 16777216)
    (tagName : CStr) :
    (∃ tag, decodeTag c tagName = .ok tag ∧ tag.identifier = c ∧
      (plc.s7RegisterTag c tagName).1 = .ok (16777216 + tag.identifier) ∧
      (plc.s7RegisterTag c tagName).2.row = (plc.plcHostName, 1, plc.table ++ [tag])) ∨
    (accepts tagName = false ∧ (∀ ret, (plc.s7RegisterTag c tagName).1 = .ok ret → ret < 0) ∧
      (plc.s7RegisterTag c tagName).2 = plc) := by
  rcases plc.s7RegisterTag_cases c tagName with
    ⟨hno, hsame, hret⟩ | ⟨-, tag, area, hdecode, -, -, hreg⟩
  · right
    refine ⟨hno, fun ret h => ?_, hsame⟩
    rw [hret ret h]
    exact Int.negSucc_lt_zero 0
  · left
    obtain ⟨hc', hvalue, hpending, -, -⟩ := decodeTag_decoded hdecode
    have hregistered : tag.registered = tag := by
      cases tag
      simp only at hvalue hpending
      rw [hvalue, hpending]
      rfl
    refine ⟨tag, hdecode, hc', ?_, ?_⟩
    · rw [hreg, handle_eq hid (by rw [hc']; exact hc)]
    · rw [hreg, S7Plc.row, S7Plc.addTag_plcHostName, S7Plc.addTag_identifier, hid, S7Plc.table,
        S7Plc.addTag_tags, List.map_append, List.map_cons, List.map_nil, hregistered]
      rfl

/-- `S7_tag_create` for the host: an accepted name gets the next identifier, another is answered with
no handle. -/
theorem create (h : OneHost host tags s) (net : Net σ) (tagName : CStr)
    (hcounts : s.tagIdCounter + 1 < 16777216) :
    (∃ tag, decodeTag s.tagIdCounter tagName = .ok tag ∧
      (s7TagCreate net s host tagName).1 = .ok (16777216 + tag.identifier) ∧
      OneHost host (tags ++ [tag]) (s7TagCreate net s host tagName).2) ∨
    (accepts tagName = false ∧ (∀ ret, (s7TagCreate net s host tagName).1 = .ok ret → ret < 0) ∧
      OneHost host tags (s7TagCreate net s host tagName).2) := by
  obtain ⟨hplcId, hcounter, hplcs, hfresh, hnodup⟩ := h
  have hnext : nextTagId s.tagIdCounter = s.tagIdCounter + 1 := nextTagId_eq hcounts
  have hlater : ∀ tag ∈ tags, tag.identifier < s.tagIdCounter + 1 := fun tag htag =>
    Nat.lt_succ_of_lt (hfresh tag htag)
  -- the connection the name is registered on, and the list that is left
  obtain ⟨plc, hhost, hid, htable, hcreate⟩ : ∃ plc : S7Plc σ, plc.plcHostName = host ∧
      plc.identifier = 1 ∧ plc.table = tags ∧ s7TagCreate net s host tagName =
        ((plc.s7RegisterTag s.tagIdCounter tagName).1,
          { s with tagIdCounter := s.tagIdCounter + 1
                   s7Plcs := [(plc.s7RegisterTag s.tagIdCounter tagName).2] }) := by
    rcases hplcs with ⟨hnil, rfl⟩ | ⟨plc, hone, rfl, hid, htable⟩
    · refine ⟨S7Plc.new net s.plcIdCounter host, rfl, by rw [hplcId]; rfl, rfl, ?_⟩
      rw [s7TagCreate_first hnil, hnext]
    · refine ⟨plc, rfl, hid, htable, ?_⟩
      rw [s7TagCreate_single hone, hnext]
  rw [hcreate]
  rcases register hid hcounter tagName with ⟨tag, hdecode, hc, hret, hrow⟩ | ⟨hno, hret, hsame⟩
  · left
    refine ⟨tag, hdecode, hret, hplcId, hcounts, .inr ⟨_, rfl, ?_⟩, ?_, ?_⟩
    · obtain ⟨hhost', hrow⟩ := Prod.mk.inj hrow
      obtain ⟨hid', htable'⟩ := Prod.mk.inj hrow
      exact ⟨hhost'.trans hhost, hid', by rw [htable', htable]⟩
    · intro t ht
      rcases List.mem_append.mp ht with ht | ht
      · exact hlater t ht
      · rw [List.mem_singleton.mp ht, hc]
        exact Nat.lt_succ_self _
    · rw [List.map_append, List.map_cons, List.map_nil, hc]
      refine List.nodup_append.mpr ⟨hnodup, List.nodup_singleton _, ?_⟩
      rintro x hx y hy rfl
      obtain ⟨t, ht, rfl⟩ := List.mem_map.mp hx
      rw [List.mem_singleton] at hy
      exact absurd hy (Nat.ne_of_lt (hfresh t ht))
  · right
    refine ⟨hno, hret, hplcId, hcounts, .inr ⟨plc, ?_, hhost, hid, htable⟩, hlater, hnodup⟩
    rw [hsame]

/-- Where identifiers are distinct, the search for one ends at the only tag that has it. -/
theorem eraseP_hasId {tags : List S7Tag} (hnodup : (tags.map S7Tag.identifier).Nodup)
    (handle : Int) : tags.eraseP (hasId handle) = tags.filter fun tag => !hasId handle tag := by
  induction tags with
  | nil => rfl
  | cons tag rest ih =>
    obtain ⟨hnot, hrest⟩ := List.nodup_cons.mp hnodup
    by_cases htag : hasId handle tag = true
    · rw [List.eraseP_cons_of_pos htag, List.filter_cons_of_neg (by rw [htag]; exact Bool.false_ne_true)]
      refine (List.filter_eq_self.mpr fun t ht => ?_).symm
      rw [Bool.not_eq_true', hasId, decide_eq_false_iff_not]
      intro heq
      have hsame : t.identifier = tag.identifier := by
        have hid : (tag.identifier : Int) = tagPart handle := of_decide_eq_true htag
        exact Int.ofNat.inj (heq.trans hid.symm)
      exact hnot (hsame ▸ List.mem_map_of_mem ht)
    · rw [List.eraseP_cons_of_neg htag, ih hrest, List.filter_cons_of_pos]
      rw [Bool.not_eq_true] at htag
      rw [htag]
      rfl

/-- `S7_tag_destroy` takes away the tag of the handle. -/
theorem destroy (h : OneHost host tags s) (handle : Int) :
    OneHost host (tags.filter fun tag => 16777216 + tag.identifier ≠ handle)
      (s7TagDestroy s handle).2 := by
  obtain ⟨hplcId, hcounter, hplcs, hfresh, hnodup⟩ := h
  have hfresh' : ∀ tag ∈ tags.filter fun tag => 16777216 + tag.identifier ≠ handle,
      tag.identifier < s.tagIdCounter := fun tag htag => hfresh tag (List.mem_of_mem_filter htag)
  have hnodup' : ((tags.filter fun tag => 16777216 + tag.identifier ≠ handle).map
      S7Tag.identifier).Nodup := hnodup.sublist (List.filter_sublist.map _)
  have hids : ∀ p ∈ s.s7Plcs, p.identifier = 1 := by
    rcases hplcs with ⟨hnil, -⟩ | ⟨plc, hone, -, hid, -⟩
    · rw [hnil]
      exact fun p hp => (List.not_mem_nil hp).elim
    · rw [hone]
      intro p hp
      rw [List.mem_singleton.mp hp]
      exact hid
  rcases destroyIn_front hids handle with ⟨hmiss, hnone⟩ | ⟨plc, rest, hsplit, hhas, hsome⟩
  · -- no connection answers to the handle, so it is none of the tags'
    have hall : (tags.filter fun tag => 16777216 + tag.identifier ≠ handle) = tags := by
      refine List.filter_eq_self.mpr fun tag htag => decide_eq_true fun heq => ?_
      rcases hplcs with ⟨-, rfl⟩ | ⟨plc, hone, -, hid, -⟩
      · cases htag
      · have hno := hmiss plc (by rw [hone]; exact List.mem_cons_self)
        rw [← heq, hasPlcId_handle (Nat.lt_trans (hfresh tag htag) hcounter), hid] at hno
        cases hno
    rw [hall, s7TagDestroy, hnone]
    exact ⟨hplcId, hcounter, hplcs, hfresh, hnodup⟩
  · rcases hplcs with ⟨hnil, -⟩ | ⟨plc', hone, hhost, hid, rfl⟩
    · rw [hnil] at hsplit
      cases hsplit
    rw [hone] at hsplit
    obtain ⟨rfl, rfl⟩ := List.cons.inj hsplit
    have htable : (plc'.s7UnregisterTag handle).table =
        plc'.table.filter fun tag => 16777216 + tag.identifier ≠ handle := by
      have hids : plc'.table.map S7Tag.identifier = plc'.tags.map S7Tag.identifier := by
        rw [S7Plc.table, List.map_map]
        rfl
      rw [hids] at hnodup
      rw [S7Plc.table, S7Plc.s7UnregisterTag, eraseP_hasId hnodup, S7Plc.table, List.filter_map]
      refine congrArg _ (List.filter_congr fun tag htag => ?_)
      have hpart : (1 : Int) = plcPart handle := by
        have hfound : (plc'.identifier : Int) = plcPart handle := of_decide_eq_true hhas
        rw [hid] at hfound
        exact hfound
      rw [plcPart] at hpart
      show (!decide ((tag.identifier : Int) = tagPart handle)) =
        decide (16777216 + (tag.identifier : Int) ≠ handle)
      rw [← decide_not, decide_eq_decide, tagPart]
      omega
    rw [s7TagDestroy, hsome]
    refine ⟨hplcId, hcounter, ?_, hfresh', hnodup'⟩
    by_cases hempty : (plc'.s7UnregisterTag handle).tags.isEmpty = true
    · left
      rw [if_pos hempty]
      refine ⟨rfl, ?_⟩
      rw [← htable, S7Plc.table, List.isEmpty_iff.mp hempty]
      rfl
    · right
      rw [if_neg hempty]
      exact ⟨_, rfl, hhost, hid, htable⟩

/-- A handle acts on its tag, through each entry point. -/
theorem acts (h : OneHost host tags s) (net : Net σ) {tag : S7Tag} (htag : tag ∈ tags) :
    ∃ tag', tag'.registered = tag ∧ Acts net s (16777216 + tag.identifier) host tag' := by
  obtain ⟨-, hcounter, hplcs, hfresh, hnodup⟩ := h
  rcases hplcs with ⟨-, rfl⟩ | ⟨plc, hone, hhost, hid, rfl⟩
  · cases htag
  obtain ⟨tag', htag', rfl⟩ := List.mem_map.mp htag
  have hlt : tag'.identifier < 16777216 := Nat.lt_trans (hfresh tag'.registered htag) hcounter
  obtain ⟨front, back, hsplit⟩ := List.append_of_mem htag'
  refine ⟨tag', rfl, acts_of_split net (show _ = [] ++ plc :: [] from hone) hsplit
    (fun p hp => (List.not_mem_nil hp).elim) ?_ ?_ ?_ hhost (fun p hp => (List.not_mem_nil hp).elim)⟩
  · exact (hasPlcId_handle hlt).trans (decide_eq_true hid)
  · intro t ht
    rw [S7Tag.registered, hasId_handle hlt]
    refine decide_eq_false fun heq => ?_
    have hids : (plc.table.map S7Tag.identifier) = plc.tags.map S7Tag.identifier := by
      rw [S7Plc.table, List.map_map]
      rfl
    rw [hids, hsplit, List.map_append, List.map_cons] at hnodup
    exact (List.nodup_append.mp hnodup).2.2 _ (List.mem_map_of_mem ht) _ List.mem_cons_self heq
  · exact (hasId_handle hlt).trans (decide_eq_true rfl)

end OneHost

end OipComms.S7
