import Mathlib.Data.List.Nodup
import OipComms.Lib.Run
import OipComms.S7.Interface

/-!
# Where a handle leads

A caller creates and destroys tags over any hosts. Each entry point looks a handle's connection up
again, by the identifier in the upper part of the handle, and `S7Plc::S7Plc` takes that identifier
from a class counter that nothing increments: every connection answers to identifier 1, so the
search ends at the first one.

`Acts` says what it is for a handle to lead to its host's connection and its own tag, entry point
by entry point. The base invariant (`Session.Base`) holds of every history and gives the
uniqueness of tag identifiers; `Session.Front` is kept exactly as long as accepted tags are
created for the host of the first connection only, and gives `Acts`.
-/

namespace OipComms.S7

open FirstMatch Run

universe u

variable {σ : Type u} (net : Net σ)

/-- The calls of a history. -/
inductive Call
  | create (host tagName : CStr)
  | destroy (identifier : Int)

/-- A handle a caller holds: what `S7_tag_create` returned, for which host, and the tag it made. -/
structure LiveHandle where
  handle : Int
  host : CStr
  tag : S7Tag

/-- The library's data and the handles returned and not yet destroyed. -/
structure Session (σ : Type u) where
  lib : S7State σ := {}
  live : List LiveHandle := []

/-- The handles alive after a `S7_tag_create` on `host` that answered `ret`. -/
def Session.liveAfter (g : Session σ) (host tagName : CStr) (ret : Except StoiError Int) :
    List LiveHandle :=
  match ret, decodeTag g.lib.tagIdCounter tagName with
  | .ok h, .ok tag => if 0 ≤ h then ⟨h, host, tag⟩ :: g.live else g.live
  | _, _ => g.live

/-- One call. An exception leaves the history free to go on from the state it was thrown in. -/
def Session.step (g : Session σ) : Call → Session σ
  | .create host tagName =>
    let (ret, lib) := s7TagCreate net g.lib host tagName
    { lib := lib, live := g.liveAfter host tagName ret }
  | .destroy identifier =>
    { lib := (s7TagDestroy g.lib identifier).2,
      live := g.live.filter fun e => e.handle ≠ identifier }

/-- The six entry points, called on handle `h`, all act on the connection of `host`, the by-tag
ones on `tag`, and change nothing else. -/
def Acts (s : S7State σ) (h : Int) (host : CStr) (tag : S7Tag) : Prop :=
  ∃ pre plc post front back,
    s.s7Plcs = pre ++ plc :: post ∧ plc.tags = front ++ tag :: back ∧
    plc.plcHostName = host ∧ (∀ p ∈ pre ++ post, p.plcHostName ≠ host) ∧
    s7ReadTag s h = plc.s7ReadTag tag ∧
    (∀ v, s7WriteTag s h v = (0, { s with
      s7Plcs := pre ++ { plc with tags := front ++ tag.s7Write v :: back } :: post })) ∧
    s7TagWrite net s h = ((plc.s7SendTag net tag).1, { s with
      s7Plcs := pre ++ { (plc.s7SendTag net tag).2.1 with
        tags := front ++ (plc.s7SendTag net tag).2.2 :: back } :: post }) ∧
    s7TagConnected s h = (if plc.state = 2 then 1 else 0) ∧
    s7TagFlush net s h = ((plc.flushPendingWrites net).1, { s with
      s7Plcs := pre ++ (plc.flushPendingWrites net).2 :: post }) ∧
    s7TagDestroy s h = (0, { s with
      s7Plcs := pre ++ (if (front ++ back).isEmpty then post
        else { plc with tags := front ++ back } :: post) })

/-- Every live handle acts where it should, and no two are equal. -/
def Session.Routed (g : Session σ) : Prop :=
  (∀ e ∈ g.live, Acts net g.lib e.handle e.host e.tag) ∧ (g.live.map LiveHandle.handle).Nodup

/-! ## Entry points on a list split at the handle's connection -/

/-- A handle is 2^24 and the number of the tag, as every connection has the number 1. -/
theorem handle_eq {plc : S7Plc σ} {tag : S7Tag} (hp : plc.identifier = 1)
    (htag : tag.identifier < 16777216) : plc.handle tag = 16777216 + tag.identifier := by
  have hlt : tag.identifier < 2 ^ 24 := htag
  rw [S7Plc.handle, hp, ← Nat.shiftLeft_add_eq_or_of_lt hlt, Nat.shiftLeft_eq]
  omega

/-- The connection a handle asks for is one with the number 1. -/
theorem hasPlcId_handle {id : Nat} {p : S7Plc σ} (hid : id < 16777216) :
    hasPlcId (16777216 + id) p = (p.identifier = 1 : Bool) := by
  have hpart : plcPart (16777216 + id) = 1 := by
    rw [plcPart]
    omega
  simp only [hasPlcId, hpart, Nat.cast_eq_one]

/-- The tag a handle asks for is the one with its number. -/
theorem hasId_handle {id : Nat} {t : S7Tag} (hid : id < 16777216) :
    hasId (16777216 + id) t = (t.identifier = id : Bool) := by
  have hpart : tagPart (16777216 + id) = id := by
    rw [tagPart]
    omega
  simp only [hasId, hpart, Nat.cast_inj]

/-- A handle whose two searches end at `plc` and `tag` acts there. -/
theorem acts_of_split {s : S7State σ} {h : Int} {host : CStr} {plc : S7Plc σ} {tag : S7Tag}
    {pre post : List (S7Plc σ)} {front back : List S7Tag}
    (hplcs : s.s7Plcs = pre ++ plc :: post) (htags : plc.tags = front ++ tag :: back)
    (hpre : ∀ p ∈ pre, hasPlcId h p = false) (hplc : hasPlcId h plc = true)
    (hfront : ∀ t ∈ front, hasId h t = false) (htag : hasId h tag = true)
    (hhost : plc.plcHostName = host) (hother : ∀ p ∈ pre ++ post, p.plcHostName ≠ host) :
    Acts net s h host tag := by
  have hfind : s.s7Plcs.find? (hasPlcId h) = some plc := by
    rw [hplcs]
    exact find?_append_cons post hpre hplc
  have hact : ∀ act : S7Plc σ → Int × S7Plc σ,
      onPlc h act s = ((act plc).1, { s with s7Plcs := pre ++ (act plc).2 :: post }) := by
    intro act
    simp only [onPlc, hplcs, firstMatch_append act post hpre hplc]
  have hunreg : plc.s7UnregisterTag h = { plc with tags := front ++ back } := by
    rw [S7Plc.s7UnregisterTag, htags, eraseP_append_cons back hfront htag]
  refine ⟨pre, plc, post, front, back, hplcs, htags, hhost, hother, ?_, ?_, ?_, ?_, ?_, ?_⟩
  · simp only [s7ReadTag, hfind, S7Plc.s7Read, htags, find?_append_cons back hfront htag]
  · intro v
    simp only [s7WriteTag, hact, S7Plc.s7Write, htags,
      firstMatch_append (fun t => ((), S7Tag.s7Write t v)) back hfront htag]
  · simp only [s7TagWrite, hact, S7Plc.sendTagById, htags,
      firstMatch_append (plc.sendEntry net) back hfront htag, S7Plc.sendEntry]
  · simp only [s7TagConnected, hfind]
  · simp only [s7TagFlush, hact]
  · simp only [s7TagDestroy, hplcs, destroyIn_append post hpre hplc, hunreg]

/-! ## What every history keeps -/

/-- The connection-level half: identifier 1 and distinct tag identifiers, all below the counter. -/
structure PlcBase (counter : Nat) (plc : S7Plc σ) : Prop where
  identifier : plc.identifier = 1
  fresh : ∀ tag ∈ plc.tags, tag.identifier < counter
  nodup : (plc.tags.map S7Tag.identifier).Nodup

/-- What holds after every history, whatever its hosts. -/
structure Session.Base (g : Session σ) : Prop where
  counter : g.lib.tagIdCounter < 16777216
  plcIdCounter : g.lib.plcIdCounter = 0
  plcs : ∀ plc ∈ g.lib.s7Plcs, PlcBase g.lib.tagIdCounter plc
  hosts : (g.lib.s7Plcs.map S7Plc.plcHostName).Nodup
  handles : ∀ e ∈ g.live, e.handle = 16777216 + e.tag.identifier ∧
    e.tag.identifier < g.lib.tagIdCounter
  nodup : (g.live.map LiveHandle.handle).Nodup

/-- The tag counter does not wrap in this call. -/
def Session.Counts (g : Session σ) : Call → Prop
  | .create _ _ => g.lib.tagIdCounter + 1 < 16777216
  | .destroy _ => True

/-- The numbers of the tags are below any later counter. -/
theorem PlcBase.mono {c c' : Nat} {plc : S7Plc σ} (h : PlcBase c plc) (hc : c ≤ c') :
    PlcBase c' plc :=
  ⟨h.identifier, fun tag htag => Nat.lt_of_lt_of_le (h.fresh tag htag) hc, h.nodup⟩

/-- A new connection has no tags. -/
theorem plcBase_new (c : Nat) (host : CStr) : PlcBase c (S7Plc.new net 0 host) :=
  ⟨rfl, fun _ h => (List.not_mem_nil h).elim, List.nodup_nil⟩

/-- A tag that is registered gets the number of the counter. -/
theorem PlcBase.register {c : Nat} {plc : S7Plc σ} (h : PlcBase c plc) (tagName : CStr) :
    PlcBase (c + 1) (plc.s7RegisterTag c tagName).2 := by
  rcases plc.s7RegisterTag_cases c tagName with ⟨_, hsame, _⟩ | ⟨_, tag, area, hdec, _, _, heq⟩
  · rw [hsame]
    exact h.mono (Nat.le_succ c)
  · have hid := (decodeTag_decoded hdec).identifier
    rw [heq]
    refine ⟨by rw [S7Plc.addTag_identifier]; exact h.identifier, fun t ht => ?_, ?_⟩
    · rcases List.mem_append.mp ht with ht | ht
      · exact Nat.lt_succ_of_lt (h.fresh t ht)
      · rw [List.mem_singleton.mp ht, hid]
        exact Nat.lt_succ_self c
    · rw [S7Plc.addTag_tags, List.map_append, List.map_cons, List.map_nil, hid]
      refine List.nodup_append.mpr ⟨h.nodup, List.nodup_singleton c, ?_⟩
      rintro x hx y hy rfl
      obtain ⟨t, ht, rfl⟩ := List.mem_map.mp hx
      have hlt := h.fresh t ht
      rw [List.mem_singleton.mp hy] at hlt
      exact Nat.lt_irrefl c hlt

/-- A registration leaves the host. -/
theorem register_plcHostName (plc : S7Plc σ) (c : Nat) (tagName : CStr) :
    (plc.s7RegisterTag c tagName).2.plcHostName = plc.plcHostName := by
  rcases plc.s7RegisterTag_cases c tagName with ⟨_, hsame, _⟩ | ⟨_, tag, area, _, _, _, heq⟩
  · rw [hsame]
  · rw [heq, S7Plc.addTag_plcHostName]

/-- A name that is refused leaves its connection as it is. -/
theorem register_refused {plc : S7Plc σ} {c : Nat} {tagName : CStr} (h : accepts tagName = false) :
    (plc.s7RegisterTag c tagName).2 = plc := by
  rcases plc.s7RegisterTag_cases c tagName with ⟨_, hsame, _⟩ | ⟨hyes, _⟩
  · exact hsame
  · rw [hyes] at h; cases h

/-- A tag that is taken off leaves the others as they are. -/
theorem PlcBase.unregister {c : Nat} {plc : S7Plc σ} (h : PlcBase c plc) (identifier : Int) :
    PlcBase c (plc.s7UnregisterTag identifier) :=
  ⟨h.identifier, fun tag htag => h.fresh tag (List.mem_of_mem_eraseP htag),
    h.nodup.sublist (List.eraseP_sublist.map _)⟩

/-- A tag handle's two parts find a tag of that identifier on a connection of identifier 1. -/
theorem handle_of_parts {identifier : Int} {plc : S7Plc σ} {tag : S7Tag}
    (hplc : hasPlcId identifier plc = true) (hid : plc.identifier = 1)
    (htag : hasId identifier tag = true) : identifier = 16777216 + tag.identifier := by
  have hplc' : (plc.identifier : Int) = plcPart identifier := of_decide_eq_true hplc
  have htag' : (tag.identifier : Int) = tagPart identifier := of_decide_eq_true htag
  rw [hid, plcPart] at hplc'
  rw [tagPart] at htag'
  omega

/-- `S7_tag_destroy` on a list where every connection has identifier 1: it acts on the first, or on
none. -/
theorem destroyIn_front {l : List (S7Plc σ)} (hl : ∀ p ∈ l, p.identifier = 1) (identifier : Int) :
    ((∀ p ∈ l, hasPlcId identifier p = false) ∧ destroyIn identifier l = none) ∨
    ∃ plc rest, l = plc :: rest ∧ hasPlcId identifier plc = true ∧
      destroyIn identifier l = some (if (plc.s7UnregisterTag identifier).tags.isEmpty then rest
        else plc.s7UnregisterTag identifier :: rest) := by
  cases l with
  | nil => exact .inl ⟨fun _ hp => (List.not_mem_nil hp).elim, rfl⟩
  | cons plc rest =>
    cases hplc : hasPlcId identifier plc with
    | true =>
      exact .inr ⟨plc, rest, rfl, hplc,
        destroyIn_append rest (fun p hp => (List.not_mem_nil hp).elim) hplc⟩
    | false =>
      have hall : ∀ p ∈ plc :: rest, hasPlcId identifier p = false := by
        intro p hp
        have hone : plc.identifier = p.identifier := by
          rw [hl plc List.mem_cons_self, hl p hp]
        simpa only [hasPlcId, hone] using hplc
      exact .inl ⟨hall, destroyIn_none hall⟩

/-- A creation on a connection of identifier 1 leaves the live handles as they are, or adds the one
handle of the tag it made. -/
theorem liveAfter_cases {g : Session σ} {plc : S7Plc σ} (hone : plc.identifier = 1)
    (hcounter : g.lib.tagIdCounter < 16777216) (host tagName : CStr) :
    (accepts tagName = false ∧
      g.liveAfter host tagName (plc.s7RegisterTag g.lib.tagIdCounter tagName).1 = g.live) ∨
    (accepts tagName = true ∧ ∃ tag area, tag.identifier = g.lib.tagIdCounter ∧
      plc.s7RegisterTag g.lib.tagIdCounter tagName = (.ok (plc.handle tag), plc.addTag area tag) ∧
      g.liveAfter host tagName (plc.s7RegisterTag g.lib.tagIdCounter tagName).1 =
        ⟨16777216 + tag.identifier, host, tag⟩ :: g.live) := by
  rcases plc.s7RegisterTag_cases g.lib.tagIdCounter tagName with
    ⟨hno, _, hret⟩ | ⟨hyes, tag, area, hdec, _, _, heq⟩
  · refine .inl ⟨hno, ?_⟩
    cases h : (plc.s7RegisterTag g.lib.tagIdCounter tagName).1 with
    | error e => rfl
    | ok v =>
      rw [hret v h]
      unfold Session.liveAfter
      cases decodeTag g.lib.tagIdCounter tagName <;> rfl
  · have hid := (decodeTag_decoded hdec).identifier
    have hhandle : plc.handle tag = 16777216 + tag.identifier :=
      handle_eq hone (by rw [hid]; exact hcounter)
    refine .inr ⟨hyes, tag, area, hid, heq, ?_⟩
    simp only [heq, Session.liveAfter, hdec, hhandle]
    rw [if_pos (by omega)]

/-- `S7_tag_create` keeps the numbers apart. -/
theorem Session.Base.create {g : Session σ} (hB : g.Base) {host tagName : CStr}
    (hD : g.Counts (.create host tagName)) : (g.step net (.create host tagName)).Base := by
  have hcounter : nextTagId g.lib.tagIdCounter = g.lib.tagIdCounter + 1 := nextTagId_eq hD
  -- the live handles, for whichever connection registered the tag
  have hlive : ∀ plc : S7Plc σ, PlcBase g.lib.tagIdCounter plc →
      (∀ e ∈ g.liveAfter host tagName (plc.s7RegisterTag g.lib.tagIdCounter tagName).1,
        e.handle = 16777216 + e.tag.identifier ∧ e.tag.identifier < g.lib.tagIdCounter + 1) ∧
      ((g.liveAfter host tagName (plc.s7RegisterTag g.lib.tagIdCounter tagName).1).map
        LiveHandle.handle).Nodup := by
    intro plc hplc
    have hold : ∀ e ∈ g.live, e.handle = 16777216 + e.tag.identifier ∧
        e.tag.identifier < g.lib.tagIdCounter + 1 := fun e he =>
      ⟨(hB.handles e he).1, Nat.lt_succ_of_lt (hB.handles e he).2⟩
    rcases liveAfter_cases hplc.identifier hB.counter host tagName with
      ⟨_, hsame⟩ | ⟨_, tag, area, hid, _, hnew⟩
    · rw [hsame]
      exact ⟨hold, hB.nodup⟩
    · rw [hnew]
      refine ⟨fun e he => ?_, ?_⟩
      · rcases List.mem_cons.mp he with rfl | he
        · exact ⟨rfl, by rw [hid]; exact Nat.lt_succ_self _⟩
        · exact hold e he
      · rw [List.map_cons, List.nodup_cons]
        refine ⟨fun hmem => ?_, hB.nodup⟩
        obtain ⟨e, he, heq⟩ := List.mem_map.mp hmem
        have hlt := hB.handles e he
        simp only [hid] at heq
        omega
  rcases s7TagCreate_cases net g.lib host tagName with
    ⟨pre, plc, post, hsplit, hhost, _, heq⟩ | ⟨hmiss, heq⟩
  · have hplc : PlcBase g.lib.tagIdCounter plc :=
      hB.plcs plc (by rw [hsplit]; exact List.mem_append_right _ List.mem_cons_self)
    simp only [Session.step, heq, hcounter]
    refine ⟨hD, hB.plcIdCounter, fun p hp => ?_, ?_, (hlive plc hplc).1, (hlive plc hplc).2⟩
    · have hold : p ∈ pre ++ plc :: post → PlcBase (g.lib.tagIdCounter + 1) p := fun h =>
        (hB.plcs p (by rw [hsplit]; exact h)).mono (Nat.le_succ _)
      rcases List.mem_append.mp hp with hp | hp
      · exact hold (List.mem_append_left _ hp)
      · rcases List.mem_cons.mp hp with rfl | hp
        · exact hplc.register tagName
        · exact hold (List.mem_append_right _ (List.mem_cons_of_mem _ hp))
    · have hmap : (pre ++ (plc.s7RegisterTag g.lib.tagIdCounter tagName).2 :: post).map
          S7Plc.plcHostName = g.lib.s7Plcs.map S7Plc.plcHostName := by
        simp only [hsplit, List.map_append, List.map_cons, register_plcHostName]
      exact hmap ▸ hB.hosts
  · have hplc : PlcBase g.lib.tagIdCounter (S7Plc.new net g.lib.plcIdCounter host) := by
      rw [hB.plcIdCounter]
      exact plcBase_new net _ host
    simp only [Session.step, heq, hcounter]
    refine ⟨hD, hB.plcIdCounter, fun p hp => ?_, ?_, (hlive _ hplc).1, (hlive _ hplc).2⟩
    · rcases List.mem_append.mp hp with hp | hp
      · exact (hB.plcs p hp).mono (Nat.le_succ _)
      · rw [List.mem_singleton.mp hp]
        exact hplc.register tagName
    · rw [List.map_append, List.map_cons, List.map_nil, register_plcHostName]
      refine List.nodup_append.mpr ⟨hB.hosts, List.nodup_singleton _, ?_⟩
      rintro x hx y hy rfl
      obtain ⟨p, hp, rfl⟩ := List.mem_map.mp hx
      exact hmiss p hp (List.mem_singleton.mp hy)

/-- `S7_tag_destroy` keeps the numbers apart. -/
theorem Session.Base.destroy {g : Session σ} (hB : g.Base) (identifier : Int) :
    (g.step net (.destroy identifier)).Base := by
  have hids : ∀ p ∈ g.lib.s7Plcs, p.identifier = 1 := fun p hp => (hB.plcs p hp).identifier
  have hhandles : ∀ e ∈ g.live.filter fun e => e.handle ≠ identifier,
      e.handle = 16777216 + e.tag.identifier ∧ e.tag.identifier < g.lib.tagIdCounter :=
    fun e he => hB.handles e (List.mem_of_mem_filter he)
  have hnodup : ((g.live.filter fun e => e.handle ≠ identifier).map LiveHandle.handle).Nodup :=
    hB.nodup.sublist (List.filter_sublist.map LiveHandle.handle)
  rcases destroyIn_front hids identifier with ⟨-, hnone⟩ | ⟨plc, rest, hsplit, _, hsome⟩
  · simp only [Session.step, s7TagDestroy, hnone]
    exact ⟨hB.counter, hB.plcIdCounter, hB.plcs, hB.hosts, hhandles, hnodup⟩
  · have hplc := hB.plcs plc (by rw [hsplit]; exact List.mem_cons_self)
    have hrest : ∀ p ∈ rest, PlcBase g.lib.tagIdCounter p := fun p hp =>
      hB.plcs p (by rw [hsplit]; exact List.mem_cons_of_mem _ hp)
    have hhosts : plc.plcHostName ∉ rest.map S7Plc.plcHostName ∧
        (rest.map S7Plc.plcHostName).Nodup := by
      have h := hB.hosts
      rw [hsplit, List.map_cons] at h
      exact List.nodup_cons.mp h
    simp only [Session.step, s7TagDestroy, hsome]
    by_cases hempty : (plc.s7UnregisterTag identifier).tags.isEmpty = true
    · rw [if_pos hempty]
      exact ⟨hB.counter, hB.plcIdCounter, hrest, hhosts.2, hhandles, hnodup⟩
    · rw [if_neg hempty]
      refine ⟨hB.counter, hB.plcIdCounter, fun p hp => ?_, ?_, hhandles, hnodup⟩
      · rcases List.mem_cons.mp hp with rfl | hp
        · exact hplc.unregister identifier
        · exact hrest p hp
      · rw [List.map_cons]
        exact List.nodup_cons.mpr hhosts

/-- Every call keeps the numbers apart. -/
theorem Session.Base.step {g : Session σ} (hB : g.Base) (c : Call) (hD : g.Counts c) :
    (g.step net c).Base := by
  cases c with
  | create host tagName => exact hB.create net hD
  | destroy identifier => exact hB.destroy net identifier

/-- At first there is no connection. -/
theorem Session.base_start : ({} : Session σ).Base :=
  ⟨Nat.zero_lt_of_lt (show 0 < 16777216 by omega), rfl, fun _ h => (List.not_mem_nil h).elim,
    List.nodup_nil, fun _ h => (List.not_mem_nil h).elim, List.nodup_nil⟩

/-! ## Histories that stay on the first connection -/

/-- Every live handle belongs to the first connection. -/
def Session.Front (g : Session σ) : Prop :=
  ∀ e ∈ g.live, ∃ plc rest, g.lib.s7Plcs = plc :: rest ∧ plc.plcHostName = e.host ∧ e.tag ∈ plc.tags

/-- A creation whose name is accepted is for the host of the first connection, if there is one. -/
def Session.ForFront (g : Session σ) : Call → Prop
  | .create host tagName =>
    accepts tagName = true → ∀ plc ∈ g.lib.s7Plcs.head?, plc.plcHostName = host
  | .destroy _ => True

/-- With its connection in front each handle is routed to its tag. -/
theorem Session.Front.routed {g : Session σ} (hB : g.Base) (hF : g.Front) : g.Routed net := by
  refine ⟨fun e he => ?_, hB.nodup⟩
  obtain ⟨plc, rest, hplcs, hhost, htag⟩ := hF e he
  obtain ⟨hhandle, hlt⟩ := hB.handles e he
  have hid : e.tag.identifier < 16777216 := Nat.lt_trans hlt hB.counter
  have hplc := hB.plcs plc (by rw [hplcs]; exact List.mem_cons_self)
  obtain ⟨front, back, hsplit⟩ := List.append_of_mem htag
  have hunique : ∀ t ∈ front, t.identifier ≠ e.tag.identifier := by
    intro t ht heq
    have hnd := hplc.nodup
    rw [hsplit, List.map_append, List.map_cons] at hnd
    exact (List.nodup_append.mp hnd).2.2 _ (List.mem_map_of_mem ht) _ List.mem_cons_self heq
  have hhosts := hB.hosts
  rw [hplcs, List.map_cons, hhost] at hhosts
  refine acts_of_split net (show _ = [] ++ plc :: rest from hplcs) hsplit (fun p hp => (List.not_mem_nil hp).elim)
    ?_ ?_ ?_ hhost ?_
  · rw [hhandle, hasPlcId_handle hid]
    exact decide_eq_true hplc.identifier
  · intro t ht
    rw [hhandle, hasId_handle hid]
    exact decide_eq_false (hunique t ht)
  · rw [hhandle, hasId_handle hid]
    exact decide_eq_true rfl
  · intro p hp heq
    exact (List.nodup_cons.mp hhosts).1 (heq ▸ List.mem_map_of_mem hp)

/-- A tag created on the connection in front is on the connection in front. -/
theorem Session.Front.create {g : Session σ} (hB : g.Base) (hF : g.Front) {host tagName : CStr}
    (hC : g.ForFront (.create host tagName)) : (g.step net (.create host tagName)).Front := by
  rcases s7TagCreate_cases net g.lib host tagName with
    ⟨pre, plc, post, hsplit, hhost, hpre, heq⟩ | ⟨hmiss, heq⟩
  · have hplc : PlcBase g.lib.tagIdCounter plc :=
      hB.plcs plc (by rw [hsplit]; exact List.mem_append_right _ List.mem_cons_self)
    rcases liveAfter_cases hplc.identifier hB.counter host tagName with
      ⟨hno, hsame⟩ | ⟨hyes, tag, area, _, hreg, hnew⟩
    · simp only [Session.step, heq, register_refused hno, hsame]
      intro e he
      obtain ⟨p, rest, h1, h2, h3⟩ := hF e he
      exact ⟨p, rest, by rw [← hsplit]; exact h1, h2, h3⟩
    · cases pre with
      | cons p pre =>
        have hp := hC hyes p (by rw [hsplit]; rfl)
        exact (hpre p List.mem_cons_self hp).elim
      | nil =>
        rw [hreg] at hnew
        simp only [Session.step, heq, hreg, hnew, List.nil_append]
        intro e he
        refine ⟨plc.addTag area tag, post, rfl, ?_, ?_⟩
        all_goals rcases List.mem_cons.mp he with rfl | he
        · rw [S7Plc.addTag_plcHostName, hhost]
        · obtain ⟨p, rest, h1, h2, _⟩ := hF e he
          rw [hsplit, List.nil_append] at h1
          rw [S7Plc.addTag_plcHostName, (List.cons.inj h1).1, h2]
        · exact List.mem_append_right _ List.mem_cons_self
        · obtain ⟨p, rest, h1, _, h3⟩ := hF e he
          rw [hsplit, List.nil_append] at h1
          exact List.mem_append_left _ ((List.cons.inj h1).1 ▸ h3)
  · have hplc : PlcBase g.lib.tagIdCounter (S7Plc.new net g.lib.plcIdCounter host) := by
      rw [hB.plcIdCounter]
      exact plcBase_new net _ host
    rcases liveAfter_cases hplc.identifier hB.counter host tagName with
      ⟨_, hsame⟩ | ⟨hyes, tag, area, _, hreg, hnew⟩
    · simp only [Session.step, heq, hsame]
      intro e he
      obtain ⟨p, rest, h1, h2, h3⟩ := hF e he
      exact ⟨p, rest ++ [_], by rw [h1, List.cons_append], h2, h3⟩
    · cases hplcs : g.lib.s7Plcs with
      | cons p rest =>
        have hp := hC hyes p (by rw [hplcs]; rfl)
        exact (hmiss p (by rw [hplcs]; exact List.mem_cons_self) hp).elim
      | nil =>
        rw [hreg] at hnew
        simp only [Session.step, heq, hreg, hnew, hplcs, List.nil_append]
        intro e he
        rcases List.mem_cons.mp he with rfl | he
        · exact ⟨_, [], rfl, S7Plc.addTag_plcHostName _ _ _,
            List.mem_append_right _ List.mem_cons_self⟩
        · obtain ⟨p, rest, h1, _, _⟩ := hF e he
          rw [hplcs] at h1
          cases h1

/-- A tag that is destroyed leaves the connection in front. -/
theorem Session.Front.destroy {g : Session σ} (hB : g.Base) (hF : g.Front) (identifier : Int) :
    (g.step net (.destroy identifier)).Front := by
  have hids : ∀ p ∈ g.lib.s7Plcs, p.identifier = 1 := fun p hp => (hB.plcs p hp).identifier
  rcases destroyIn_front hids identifier with ⟨-, hnone⟩ | ⟨plc, rest, hsplit, hmatch, hsome⟩
  · simp only [Session.step, s7TagDestroy, hnone]
    exact fun e he => hF e (List.mem_of_mem_filter he)
  · have hid : plc.identifier = 1 := hids plc (by rw [hsplit]; exact List.mem_cons_self)
    -- a handle that survives keeps its tag, since the search removes the tag of `identifier` only
    have hkeep : ∀ e ∈ g.live.filter fun e => e.handle ≠ identifier,
        plc.plcHostName = e.host ∧ e.tag ∈ (plc.s7UnregisterTag identifier).tags := by
      intro e he
      obtain ⟨he, hne⟩ := List.mem_filter.mp he
      obtain ⟨p, r, h1, h2, h3⟩ := hF e he
      rw [hsplit] at h1
      obtain ⟨rfl, rfl⟩ := List.cons.inj h1
      refine ⟨h2, (List.mem_eraseP_of_neg ?_).mpr h3⟩
      intro hhas
      have heq := handle_of_parts hmatch hid hhas
      rw [heq, (hB.handles e he).1] at hne
      exact (of_decide_eq_true hne) rfl
    simp only [Session.step, s7TagDestroy, hsome]
    intro e he
    obtain ⟨hhost, htag⟩ := hkeep e he
    have hnonempty : (plc.s7UnregisterTag identifier).tags.isEmpty = false :=
      List.isEmpty_eq_false_iff.mpr (List.ne_nil_of_mem htag)
    rw [hnonempty, if_neg Bool.false_ne_true]
    exact ⟨_, rest, rfl, hhost, htag⟩

/-- An accepted creation for another host than the first connection's makes a handle that the first
connection answers for, without a tag of that identifier. -/
theorem Session.not_routed {g : Session σ} (hB : g.Base) {c : Call} (hD : g.Counts c)
    (hC : ¬ g.ForFront c) : ¬ (g.step net c).Routed net := by
  cases c with
  | destroy identifier => exact absurd trivial hC
  | create host tagName =>
    simp only [Session.ForFront, Classical.not_imp, not_forall] at hC
    obtain ⟨hyes, p, hp, hother⟩ := hC
    obtain ⟨rest, hplcs⟩ : ∃ rest, g.lib.s7Plcs = p :: rest := by
      cases h : g.lib.s7Plcs with
      | nil => rw [h] at hp; cases hp
      | cons q rest =>
        rw [h] at hp
        exact ⟨rest, by rw [← Option.some.inj hp]⟩
    have hpBase := hB.plcs p (by rw [hplcs]; exact List.mem_cons_self)
    -- the first connection is the same after the call, and the new handle is the first of the list
    have hafter : ∃ rest' tag, tag.identifier = g.lib.tagIdCounter ∧
        (g.step net (.create host tagName)).lib.s7Plcs = p :: rest' ∧
        ⟨16777216 + tag.identifier, host, tag⟩ ∈ (g.step net (.create host tagName)).live := by
      rcases s7TagCreate_cases net g.lib host tagName with
        ⟨pre, plc, post, hsplit, hhost, _, heq⟩ | ⟨_, heq⟩
      · have hplc : PlcBase g.lib.tagIdCounter plc :=
          hB.plcs plc (by rw [hsplit]; exact List.mem_append_right _ List.mem_cons_self)
        rcases liveAfter_cases hplc.identifier hB.counter host tagName with
          ⟨hno, _⟩ | ⟨_, tag, area, hid, _, hnew⟩
        · rw [hyes] at hno; cases hno
        · cases pre with
          | nil =>
            rw [hplcs, List.nil_append] at hsplit
            exact (hother (by rw [(List.cons.inj hsplit).1, hhost])).elim
          | cons q pre =>
            rw [hplcs, List.cons_append] at hsplit
            obtain ⟨rfl, rfl⟩ := List.cons.inj hsplit
            simp only [Session.step, heq, hnew]
            exact ⟨_, tag, hid, rfl, List.mem_cons_self⟩
      · have hplc : PlcBase g.lib.tagIdCounter (S7Plc.new net g.lib.plcIdCounter host) := by
          rw [hB.plcIdCounter]
          exact plcBase_new net _ host
        rcases liveAfter_cases hplc.identifier hB.counter host tagName with
          ⟨hno, _⟩ | ⟨_, tag, area, hid, _, hnew⟩
        · rw [hyes] at hno; cases hno
        · simp only [Session.step, heq, hnew, hplcs, List.cons_append]
          exact ⟨_, tag, hid, rfl, List.mem_cons_self⟩
    obtain ⟨rest', tag, hid, hplcs', hmem⟩ := hafter
    rintro ⟨hacts, _⟩
    obtain ⟨_, _, _, _, _, _, _, _, _, _, hwrite, _⟩ := hacts _ hmem
    have hlt : tag.identifier < 16777216 := by rw [hid]; exact hB.counter
    have hmiss : ∀ t ∈ p.tags, hasId (16777216 + tag.identifier) t = false := by
      intro t ht
      rw [hasId_handle hlt, hid]
      exact decide_eq_false (Nat.ne_of_lt (hpBase.fresh t ht))
    have hroute : hasPlcId (16777216 + tag.identifier) p = true := by
      rw [hasPlcId_handle hlt]
      exact decide_eq_true hpBase.identifier
    have hlost : (s7WriteTag (g.step net (.create host tagName)).lib
        (16777216 + tag.identifier) 0).1 = -1 := by
      simp only [s7WriteTag, onPlc, hplcs', firstMatch, hroute, if_true, S7Plc.s7Write,
        firstMatch_none _ hmiss]
    rw [hwrite 0] at hlost
    have hzero : (0 : Int) = -1 := hlost
    omega

/-! ## Every history -/

def Call.isCreate : Call → Bool
  | .create _ _ => true
  | .destroy _ => false

/-- With fewer than `2^24` constructions in all, the tag counter never wraps. -/
theorem counts_of_few {ops : List Call} {g : Session σ} (hB : g.Base)
    (hfew : g.lib.tagIdCounter + ops.countP Call.isCreate < 16777216) :
    Meets (Session.step net) Session.Counts g ops := by
  induction ops generalizing g with
  | nil => trivial
  | cons c ops ih =>
    have hcounts : g.Counts c := by
      cases c with
      | destroy identifier => trivial
      | create host tagName =>
        simp only [List.countP_cons, Call.isCreate, if_true] at hfew
        simp only [Session.Counts]
        omega
    refine ⟨hcounts, ih (hB.step net c hcounts) ?_⟩
    cases c with
    | destroy identifier =>
      have hsame : (s7TagDestroy g.lib identifier).2.tagIdCounter = g.lib.tagIdCounter := by
        unfold s7TagDestroy
        cases destroyIn identifier g.lib.s7Plcs <;> rfl
      simp only [List.countP_cons, Call.isCreate, Bool.false_eq_true, if_false, Nat.add_zero] at hfew
      simpa only [Session.step, hsame] using hfew
    | create host tagName =>
      have hnext : (s7TagCreate net g.lib host tagName).2.tagIdCounter = g.lib.tagIdCounter + 1 := by
        rw [← nextTagId_eq hcounts]
        rcases s7TagCreate_cases net g.lib host tagName with ⟨_, _, _, _, _, _, heq⟩ | ⟨_, heq⟩
        all_goals rw [heq]
      simp only [List.countP_cons, Call.isCreate, if_true] at hfew
      simp only [Session.step, hnext]
      omega

/-- In a history of fewer than `2^24` constructions, every live handle leads to its own host's
connection and its own tag at every moment exactly when no accepted tag is created for a host other
than the first connection's. -/
theorem handles_routed_iff_one_host (ops : List Call)
    (hfew : ops.countP Call.isCreate < 16777216) :
    Along (Session.step net) (Session.Routed net) {} ops ↔
      Meets (Session.step net) Session.ForFront {} ops := by
  refine along_iff_meets (Session.step net) (B := Session.Base) (J := Session.Front)
    (D := Session.Counts) (fun g c hB hD => hB.step net c hD) ?_
    (fun g hB hF => hF.routed net hB) (fun g c hB _ hD hC => g.not_routed net hB hD hC)
    Session.base_start (fun e he => (List.not_mem_nil he).elim) ?_
  · intro g c hB hF _ hC
    cases c with
    | create host tagName => exact hF.create net hB hC
    | destroy identifier => exact hF.destroy net hB identifier
  · refine counts_of_few net Session.base_start ?_
    rw [Nat.zero_add]
    exact hfew

/-- A network that reaches nobody: every socket call fails. -/
def deadNet : Net Unit where
  send _ _ := (-1, ())
  recv _ _ := (none, ())
  close _ := ()
  invalidSocket := ()
  recv_le := fun _ _ _ h => nomatch h

/-- `MB0` on one host, then `MB0` on another. -/
def twoHosts : List Call :=
  [.create ['1', '0', '.', '0', '.', '0', '.', '1'] ['M', 'B', '0'],
   .create ['1', '0', '.', '0', '.', '0', '.', '2'] ['M', 'B', '0']]

/-- The first connection answers for the second host's handle. -/
theorem two_hosts_not_routed : ¬ Along (Session.step deadNet) (Session.Routed deadNet) {} twoHosts := by
  intro h
  have hbase : (Session.step deadNet {}
      (.create ['1', '0', '.', '0', '.', '0', '.', '1'] ['M', 'B', '0'])).Base :=
    Session.base_start.step deadNet _ (show 0 + 1 < 16777216 by omega)
  have hcounts : (Session.step deadNet {}
      (.create ['1', '0', '.', '0', '.', '0', '.', '1'] ['M', 'B', '0'])).Counts
      (.create ['1', '0', '.', '0', '.', '0', '.', '2'] ['M', 'B', '0']) := by
    show _ + 1 < 16777216
    decide
  refine Session.not_routed deadNet hbase hcounts ?_ h.2.2
  intro hfront
  exact absurd (hfront (by decide) _ rfl) (by decide)

/-- Two tags of one host, and the first destroyed. -/
theorem one_host_history_routed :
    Along (Session.step deadNet) (Session.Routed deadNet) {}
        [.create ['P'] ['M', 'B', '0'], .create ['P'] ['Q', 'W', '2'], .destroy 16777216] ↔
      Meets (Session.step deadNet) Session.ForFront {}
        [.create ['P'] ['M', 'B', '0'], .create ['P'] ['Q', 'W', '2'], .destroy 16777216] :=
  handles_routed_iff_one_host deadNet _ (by decide)

end OipComms.S7
