import OipComms.Lib.Run
import OipComms.S7.Account
import OipComms.S7.Polling

/-!
# Deferred writes

`S7_tag_set_*` caches a value, `S7_tag_write` sends it if the link is there, and what could not be
sent waits for `S7_tag_flush`, which goes through the tags in the order they were registered. A tag
caches its last value only. A history is any sequence of such calls on one connection, with the
polling thread and the link free to do what they like in between.

`deferred_writes_replayed` says what the controller holds after a last flush over a link that is
up: every write has taken effect, in an order in which only a deferred write was overtaken, and
only by other tags. The order of issue is not kept where such tags overlap
(`overlapping_writes_reordered`).
-/

namespace OipComms.S7

open Deferral FirstMatch Run

universe u

/-! ## Histories -/

/-- One round of the loop of `FlushPendingWrites`. -/
def S7Plc.flushRound {σ : Type u} (net : Net σ) (plc : S7Plc σ) (i : Nat) : S7Plc σ :=
  match plc.tags[i]? with
  | some tag =>
    if tag.writePending then
      let (_, plc', tag') := plc.s7SendTag net tag
      { plc' with tags := plc.tags.set i tag' }
    else plc
  | none => plc

/-- What happens in a history. A flush is one call, or stands in its rounds with the polling thread
between them. -/
inductive Event
  | write (handle : Int) (value : UInt64)
  | flush (handle : Int)
  | round (handle : Int) (i : Nat)
  | polled (handle : Int) (seen : S7Plc Controller)

def Event.handle : Event → Int
  | .write handle _ | .flush handle | .round handle _ | .polled handle _ => handle

/-- The library and the writes issued so far. -/
structure Deferring where
  lib : S7State Controller
  issued : List (Issued Write) := []

def Deferring.step (d : Deferring) : Event → Deferring
  | .write handle value =>
    let (_, lib) := s7WriteTag d.lib handle value
    let (ret, lib) := s7TagWrite Controller.net lib handle
    { lib := lib, issued := d.issued ++ [⟨⟨handle, value⟩, d.issued.length, ret = 0⟩] }
  | .flush handle => { d with lib := (s7TagFlush Controller.net d.lib handle).2 }
  | .round handle i =>
    { d with lib := (onPlc handle (fun plc => (0, plc.flushRound Controller.net i)) d.lib).2 }
  | .polled handle seen =>
    { d with lib := (onPlc handle (fun plc => (0, plc.polled seen)) d.lib).2 }

variable {tags₀ tags : List S7Tag} {m₀ m : Memory} {applied waiting : List (Issued Write)}

/-! ## One send -/

/-- What a send of a pending tag does: it is acknowledged and carried out, or it stays pending,
carried out or not. -/
theorem s7SendTag_cases (plc : S7Plc Controller) {tag : S7Tag} (hsized : tag.Sized)
    (hmem : tag.mem ≠ none) (hpending : tag.writePending = true) :
    ∃ ret sock buff state tag', plc.s7SendTag Controller.net tag =
        (ret, { plc with sock := sock, buff := buff, state := state }, tag') ∧
      ((ret = 0 ∧ tag' = { tag with writePending := false } ∧
        sock.memory = tag.carriedOut plc.sock.memory) ∨
      (ret = 1 ∧ tag' = tag ∧
        (sock.memory = plc.sock.memory ∨ sock.memory = tag.carriedOut plc.sock.memory))) ∧
      (plc.state = 2 → (∀ l ∈ plc.sock.links, l.isUp = true) →
        ret = 0 ∧ state = 2 ∧ ∀ l ∈ sock.links, l.isUp = true) := by
  obtain ⟨area, harea⟩ := Option.ne_none_iff_exists'.mp hmem
  have hcarried : tag.carriedOut plc.sock.memory = (tag.job area).apply plc.sock.memory := by
    rw [S7Tag.carriedOut, harea]
  by_cases hstate : plc.state = 2
  · obtain ⟨sock, buff, hsend, hmemory, hlinks⟩ := s7SendTag_job hsized harea hpending hstate
    refine ⟨_, sock, buff, _, _, hsend, ?_, ?_⟩
    · rw [hcarried]
      cases hlink : plc.sock.next with
      | up segments =>
        left
        rw [hlink] at hmemory
        exact ⟨rfl, rfl, hmemory⟩
      | down =>
        right
        rw [hlink] at hmemory
        exact ⟨rfl, S7Tag.stays_pending hpending, .inl hmemory⟩
      | lost arrived =>
        right
        rw [hlink] at hmemory
        exact ⟨rfl, S7Tag.stays_pending hpending, .inr hmemory⟩
    · intro _ hup
      rw [next_of_links hup, hlinks]
      exact ⟨rfl, rfl, fun l hl => hup l (List.mem_of_mem_tail hl)⟩
  · refine ⟨1, plc.sock, plc.buff, plc.state, tag, ?_, .inr ⟨rfl, rfl, .inl rfl⟩,
      fun h => absurd h hstate⟩
    unfold S7Plc.s7SendTag
    simp only [hpending, Bool.not_true, Bool.false_eq_true, if_false, harea, ne_eq, hstate,
      not_false_eq_true, if_true]

/-- How a connection and the writes issued stand. -/
def Kept (tags₀ : List S7Tag) (m₀ : Memory) (issued : List (Issued Write)) (tags : List S7Tag)
    (m : Memory) : Prop :=
  ∃ applied waiting, Account tags₀ m₀ tags m applied waiting ∧
    Ledger Write.slot issued applied waiting ∧ ∀ w ∈ waiting, w.prompt = false

variable {issued : List (Issued Write)} {front back : List S7Tag} {tag : S7Tag}

/-- A pending tag is sent: whatever the link does, the account goes on. -/
theorem Account.send (h : Account tags₀ m₀ tags m applied waiting)
    (hledger : Ledger Write.slot issued applied waiting)
    (htags : tags = front ++ tag :: back) (hpending : tag.writePending = true)
    (hdeferred : ∀ w ∈ waiting, w.op.slot = tag.identifier ∨ w.prompt = false)
    {ret : Int} {m' : Memory} {tag' : S7Tag}
    (hsend : (ret = 0 ∧ tag' = { tag with writePending := false } ∧ m' = tag.carriedOut m) ∨
      (ret = 1 ∧ tag' = tag ∧ (m' = m ∨ m' = tag.carriedOut m)))
    (hlate : ret = 1 → ∀ w ∈ waiting, w.prompt = false) :
    Kept tags₀ m₀ issued (front ++ tag' :: back) m' := by
  rcases hsend with ⟨_, rfl, rfl⟩ | ⟨hret, rfl, hm'⟩
  · refine ⟨_, _, h.settle htags hpending, hledger.settle _ hdeferred, ?_⟩
    intro w hw
    obtain ⟨hw, hslot⟩ := mem_notOfSlot.mp hw
    exact (hdeferred w hw).resolve_left hslot
  · refine ⟨applied, waiting, ?_, hledger, hlate hret⟩
    rw [← htags]
    apply h.congr
    intro place hplace
    rcases hm' with rfl | rfl
    · rfl
    · apply carriedOut_frame
      apply hplace tag' ?_ hpending
      rw [htags]
      exact List.mem_append_right _ List.mem_cons_self

/-- A tag that waits is sent again. -/
theorem Kept.send (h : Kept tags₀ m₀ issued (front ++ tag :: back) m)
    (hpending : tag.writePending = true) {ret : Int} {m' : Memory} {tag' : S7Tag}
    (hsend : (ret = 0 ∧ tag' = { tag with writePending := false } ∧ m' = tag.carriedOut m) ∨
      (ret = 1 ∧ tag' = tag ∧ (m' = m ∨ m' = tag.carriedOut m))) :
    Kept tags₀ m₀ issued (front ++ tag' :: back) m' := by
  obtain ⟨applied, waiting, haccount, hledger, hlate⟩ := h
  exact haccount.send hledger rfl hpending (fun w hw => .inr (hlate w hw)) hsend fun _ => hlate

theorem Kept.sized (h : Kept tags₀ m₀ issued tags m) {tag : S7Tag} (ht : tag ∈ tags) :
    tag.Sized ∧ tag.mem ≠ none := by
  obtain ⟨applied, waiting, haccount, _, _⟩ := h
  exact haccount.sized tag ht

/-- The loop of a flush keeps the account; over a link that is up nothing stays pending. -/
theorem Kept.flushTags {rest : List S7Tag} {plc : S7Plc Controller}
    (h : Kept tags₀ m₀ issued (front ++ rest) plc.sock.memory) :
    ∃ ret sock buff state rest', S7Plc.flushTags Controller.net rest plc =
        (ret, { plc with sock := sock, buff := buff, state := state }, rest') ∧
      Kept tags₀ m₀ issued (front ++ rest') sock.memory ∧
      (plc.state = 2 → (∀ l ∈ plc.sock.links, l.isUp = true) →
        ∀ tag ∈ rest', tag.writePending = false) := by
  induction rest generalizing front plc with
  | nil => exact ⟨0, plc.sock, plc.buff, plc.state, [], rfl, h, fun _ _ tag ht => nomatch ht⟩
  | cons tag rest ih =>
    by_cases hpending : tag.writePending = true
    · obtain ⟨hsized, hmem⟩ := h.sized (List.mem_append_right front List.mem_cons_self)
      obtain ⟨ret, sock, buff, state, tag', hsend, hcases, hup⟩ :=
        s7SendTag_cases plc hsized hmem hpending
      have hnext := h.send hpending hcases
      rw [List.append_cons] at hnext
      obtain ⟨ret', sock', buff', state', rest', hflush, hkept, hsettled⟩ := ih
        (show Kept _ _ _ _ ({ plc with
          sock := sock, buff := buff, state := state } : S7Plc Controller).sock.memory from hnext)
      refine ⟨if ret = 0 then ret' + 1 else ret', sock', buff', state', tag' :: rest', ?_, ?_, ?_⟩
      · rw [S7Plc.flushTags, if_pos hpending, hsend]
        simp only [hflush]
      · rw [List.append_cons]
        exact hkept
      · intro hstate hlinks t ht
        obtain ⟨hret, hstate', hlinks'⟩ := hup hstate hlinks
        rcases List.mem_cons.mp ht with rfl | ht
        · rcases hcases with ⟨_, rfl, _⟩ | ⟨hone, _, _⟩
          · rfl
          · omega
        · exact hsettled hstate' hlinks' t ht
    · rw [Bool.not_eq_true] at hpending
      rw [List.append_cons] at h
      obtain ⟨ret', sock', buff', state', rest', hflush, hkept, hsettled⟩ := ih h
      refine ⟨ret', sock', buff', state', tag :: rest', ?_, ?_, ?_⟩
      · rw [S7Plc.flushTags, hpending, if_neg Bool.false_ne_true, hflush]
      · rw [List.append_cons]
        exact hkept
      · intro hstate hlinks t ht
        rcases List.mem_cons.mp ht with rfl | ht
        · exact hpending
        · exact hsettled hstate hlinks t ht

/-! ## One event -/

/-- A write to a tag that is not there changes nothing. -/
theorem Kept.write_none {plc : S7Plc Controller}
    (h : Kept tags₀ m₀ issued plc.tags plc.sock.memory) {handle : Int}
    (hfind : plc.tags.find? (hasId handle) = none) (value : UInt64) :
    Kept tags₀ m₀ (issued ++ [⟨⟨handle, value⟩, issued.length, false⟩]) plc.tags
      plc.sock.memory := by
  obtain ⟨applied, waiting, haccount, hledger, hlate⟩ := h
  have hskip : ∀ m, Write.apply tags₀ ⟨handle, value⟩ m = m := by
    intro m
    rw [haccount.apply_eq, Write.apply, hfind]
  refine ⟨applied ++ [⟨⟨handle, value⟩, issued.length, false⟩], waiting, ?_, ?_, hlate⟩
  · refine ⟨haccount.sized, haccount.registered, haccount.first, haccount.held, haccount.last, ?_⟩
    intro place hplace
    rw [replay_append]
    show _ = (Write.apply tags₀ ⟨handle, value⟩ (replay (Write.apply tags₀) applied m₀)).bit place
    rw [hskip, haccount.memory place hplace]
  · apply hledger.pass rfl ?_ hlate
    intro w hw heq
    obtain ⟨t, ht, hid, _⟩ := haccount.held w hw
    have hno := List.find?_eq_none.mp hfind t ht
    rw [hasId, decide_eq_true_iff] at hno
    exact hno (hid.trans heq)

/-- `S7_tag_set_*` and `S7_tag_write` on the connection. -/
theorem Kept.write {plc : S7Plc Controller} (h : Kept tags₀ m₀ issued plc.tags plc.sock.memory)
    (handle : Int) (value : UInt64) :
    ∃ cached plc₁ ret plc₂, plc.s7Write handle value = (cached, plc₁) ∧
      plc₁.sendTagById Controller.net handle = (ret, plc₂) ∧
      plc₁.identifier = plc.identifier ∧ plc₂.identifier = plc.identifier ∧
      Kept tags₀ m₀ (issued ++ [⟨⟨handle, value⟩, issued.length, decide (ret = 0)⟩]) plc₂.tags
        plc₂.sock.memory := by
  cases hfind : plc.tags.find? (hasId handle) with
  | none =>
    have hmiss : ∀ t ∈ plc.tags, hasId handle t = false := fun t ht => by
      simpa only [Bool.not_eq_true] using List.find?_eq_none.mp hfind t ht
    have hone : decide ((-1 : Int) = 0) = false := rfl
    refine ⟨-1, plc, -1, plc, ?_, ?_, rfl, rfl, by rw [hone]; exact h.write_none hfind value⟩
    · rw [S7Plc.s7Write, firstMatch_none _ hmiss]
    · rw [S7Plc.sendTagById, firstMatch_none _ hmiss]
  | some tag =>
    obtain ⟨htag, front, back, htags, hfront⟩ := List.find?_eq_some_iff_append.mp hfind
    have hfront' : ∀ t ∈ front, hasId handle t = false := fun t ht => by
      simpa only [Bool.not_eq_true'] using hfront t ht
    obtain ⟨hsized, hmem⟩ := h.sized (show tag ∈ plc.tags by
      rw [htags]
      exact List.mem_append_right _ List.mem_cons_self)
    have hcached : plc.s7Write handle value =
        (0, { plc with tags := front ++ tag.s7Write value :: back }) := by
      rw [S7Plc.s7Write, htags, firstMatch_append _ back hfront' htag]
    obtain ⟨ret, sock, buff, state, tag', hsend, hcases, _⟩ := s7SendTag_cases
      { plc with tags := front ++ tag.s7Write value :: back }
      (show (tag.s7Write value).Sized from hsized) (show (tag.s7Write value).mem ≠ none from hmem) rfl
    have hsent : ({ plc with tags := front ++ tag.s7Write value :: back } :
        S7Plc Controller).sendTagById Controller.net handle =
        (ret, { plc with sock := sock, buff := buff, state := state, tags := front ++ tag' :: back }) := by
      rw [S7Plc.sendTagById,
        firstMatch_append _ back hfront' (show hasId handle (tag.s7Write value) = true from htag),
        S7Plc.sendEntry, hsend]
    refine ⟨0, _, ret, _, hcached, hsent, rfl, rfl, ?_⟩
    obtain ⟨applied, waiting, haccount, hledger, hlate⟩ := h
    refine (haccount.cache htags hfront' htag
      (rfl : (⟨⟨handle, value⟩, issued.length, decide (ret = 0)⟩ : Issued Write).op.handle = handle)).send
      (hledger.issue rfl) rfl rfl ?_ hcases ?_
    · intro w hw
      rcases List.mem_append.mp hw with hw | hw
      · exact .inr (hlate w hw)
      · obtain rfl := List.mem_singleton.mp hw
        exact .inl (of_decide_eq_true htag).symm
    · rintro rfl w hw
      rcases List.mem_append.mp hw with hw | hw
      · exact hlate w hw
      · obtain rfl := List.mem_singleton.mp hw
        rfl

/-- `FlushPendingWrites`. -/
theorem Kept.flush {plc : S7Plc Controller} (h : Kept tags₀ m₀ issued plc.tags plc.sock.memory) :
    (plc.flushPendingWrites Controller.net).2.identifier = plc.identifier ∧
    Kept tags₀ m₀ issued (plc.flushPendingWrites Controller.net).2.tags
      (plc.flushPendingWrites Controller.net).2.sock.memory ∧
    (plc.state = 2 → (∀ l ∈ plc.sock.links, l.isUp = true) →
      ∀ tag ∈ (plc.flushPendingWrites Controller.net).2.tags, tag.writePending = false) := by
  obtain ⟨ret, sock, buff, state, tags', hflush, hkept, hsettled⟩ := Kept.flushTags
    (show Kept tags₀ m₀ issued ([] ++ plc.tags) plc.sock.memory from h)
  rw [S7Plc.flushPendingWrites, hflush]
  exact ⟨rfl, hkept, hsettled⟩

/-- One round of the loop of a flush. -/
theorem Kept.round {plc : S7Plc Controller} (h : Kept tags₀ m₀ issued plc.tags plc.sock.memory)
    (i : Nat) :
    (plc.flushRound Controller.net i).identifier = plc.identifier ∧
    Kept tags₀ m₀ issued (plc.flushRound Controller.net i).tags
      (plc.flushRound Controller.net i).sock.memory := by
  cases hi : plc.tags[i]? with
  | none =>
    have hround : plc.flushRound Controller.net i = plc := by
      rw [S7Plc.flushRound, hi]
    rw [hround]
    exact ⟨rfl, h⟩
  | some tag =>
    by_cases hpending : tag.writePending = true
    · obtain ⟨hlt, hget⟩ := List.getElem?_eq_some_iff.mp hi
      have htags : plc.tags = plc.tags.take i ++ tag :: plc.tags.drop (i + 1) := by
        rw [← hget, ← List.drop_eq_getElem_cons hlt, List.take_append_drop]
      obtain ⟨hsized, hmem⟩ := h.sized (List.mem_of_getElem? hi)
      obtain ⟨ret, sock, buff, state, tag', hsend, hcases, _⟩ :=
        s7SendTag_cases plc hsized hmem hpending
      rw [htags] at h
      have hkept := h.send hpending hcases
      have hset : plc.tags.set i tag' = plc.tags.take i ++ tag' :: plc.tags.drop (i + 1) := by
        rw [List.set_eq_take_append_cons_drop, if_pos hlt]
      have hround : plc.flushRound Controller.net i = { plc with
          sock := sock, buff := buff, state := state, tags := plc.tags.set i tag' } := by
        simp only [S7Plc.flushRound, hi, hpending, if_true, hsend]
      rw [← hset] at hkept
      rw [hround]
      exact ⟨rfl, hkept⟩
    · have hround : plc.flushRound Controller.net i = plc := by
        simp only [S7Plc.flushRound, hi, if_neg hpending]
      rw [hround]
      exact ⟨rfl, h⟩

/-! ## Whole histories -/

/-- The connection of a handle is in a state that the writes issued account for. -/
def Deferring.Stands (tags₀ : List S7Tag) (m₀ : Memory) (handle : Int) (d : Deferring) : Prop :=
  ∃ plc, d.lib.s7Plcs.find? (hasPlcId handle) = some plc ∧
    Kept tags₀ m₀ d.issued plc.tags plc.sock.memory

theorem hasPlcId_congr {σ : Type u} {handle handle' : Int} (h : plcPart handle = plcPart handle') :
    hasPlcId (σ := σ) handle = hasPlcId handle' := by
  funext plc
  rw [hasPlcId, hasPlcId, h]

/-- Every event on a connection keeps its account. -/
theorem Deferring.Stands.step {handle : Int} {d : Deferring} (h : d.Stands tags₀ m₀ handle)
    {o : Event} (ho : plcPart o.handle = plcPart handle) : (d.step o).Stands tags₀ m₀ handle := by
  obtain ⟨plc, hfind, hkept⟩ := h
  have hsearch := hasPlcId_congr (σ := Controller) ho
  rw [← hsearch] at hfind
  unfold Deferring.Stands
  rw [← hsearch]
  cases o with
  | write handle₁ value =>
    change d.lib.s7Plcs.find? (hasPlcId handle₁) = some plc at hfind
    obtain ⟨cached, plc₁, ret, plc₂, hcache, hsend, hid₁, hid₂, hwritten⟩ :=
      hkept.write handle₁ value
    obtain ⟨lib₁, hset, hfind₁⟩ := onPlc_of_find hfind (fun plc => plc.s7Write handle₁ value)
      (by simp only [hcache, hid₁])
    simp only [hcache] at hset hfind₁
    obtain ⟨lib₂, hsent, hfind₂⟩ := onPlc_of_find hfind₁
      (fun plc => plc.sendTagById Controller.net handle₁) (by simp only [hsend, hid₁, hid₂])
    simp only [hsend] at hsent hfind₂
    refine ⟨plc₂, ?_, ?_⟩
    · simp only [Deferring.step, s7WriteTag, hset, s7TagWrite, hsent]
      exact hfind₂
    · simp only [Deferring.step, s7WriteTag, hset, s7TagWrite, hsent]
      exact hwritten
  | flush handle₁ =>
    change d.lib.s7Plcs.find? (hasPlcId handle₁) = some plc at hfind
    obtain ⟨hid, hflushed, _⟩ := hkept.flush
    obtain ⟨lib, hflush, hfind'⟩ := onPlc_of_find hfind
      (fun plc => plc.flushPendingWrites Controller.net) hid
    refine ⟨_, ?_, hflushed⟩
    simp only [Deferring.step, s7TagFlush, hflush]
    exact hfind'
  | round handle₁ i =>
    change d.lib.s7Plcs.find? (hasPlcId handle₁) = some plc at hfind
    obtain ⟨hid, hround⟩ := hkept.round i
    obtain ⟨lib, hact, hfind'⟩ := onPlc_of_find hfind
      (fun plc => ((0 : Int), plc.flushRound Controller.net i)) hid
    refine ⟨_, ?_, hround⟩
    simp only [Deferring.step, hact]
    exact hfind'
  | polled handle₁ seen =>
    change d.lib.s7Plcs.find? (hasPlcId handle₁) = some plc at hfind
    obtain ⟨lib, hact, hfind'⟩ := onPlc_of_find hfind
      (fun plc => ((0 : Int), plc.polled seen)) rfl
    refine ⟨_, ?_, show Kept tags₀ m₀ d.issued (plc.polled seen).tags _ from hkept⟩
    simp only [Deferring.step, hact]
    exact hfind'

/-- A history from its beginning. -/
def Deferring.after (s : S7State Controller) (ops : List Event) : Deferring :=
  run Deferring.step { lib := s } ops

/-- After a history that ends with a flush over a link that is up, no tag is pending; the memory is
what all the writes make of it in an order in which a write was overtaken only by writes to other
tags, and only where it was deferred; and at each place where no deferred write was followed by a
write to another tag, that is what they make of it in the order they were issued. -/
theorem deferred_writes_replayed {s : S7State Controller} {handle : Int} {plc : S7Plc Controller}
    (hfind : s.s7Plcs.find? (hasPlcId handle) = some plc) (hidle : plc.Idle) {ops : List Event}
    (hops : ∀ o ∈ ops, plcPart o.handle = plcPart handle) {last : S7Plc Controller}
    (hlast : (Deferring.after s ops).lib.s7Plcs.find? (hasPlcId handle) = some last)
    (hstate : last.state = 2) (hup : ∀ l ∈ last.sock.links, l.isUp = true) :
    ∃ flushed, (s7TagFlush Controller.net (Deferring.after s ops).lib
        handle).2.s7Plcs.find? (hasPlcId handle) = some flushed ∧
      (∀ tag ∈ flushed.tags, tag.writePending = false) ∧
      (∃ order, order.Perm (Deferring.after s ops).issued ∧
        order.Pairwise (MayPrecede Write.slot) ∧
        flushed.sock.memory = replay (Write.apply plc.tags) order plc.sock.memory) ∧
      ∀ a k,
        (∀ x ∈ (Deferring.after s ops).issued,
          ∀ y ∈ (Deferring.after s ops).issued,
          x.op.Covers plc.tags (a, k) → y.op.Covers plc.tags (a, k) → x.number < y.number →
          x.prompt = true ∨ x.op.slot = y.op.slot) →
        flushed.sock.memory a k = replay (Write.apply plc.tags)
          (Deferring.after s ops).issued plc.sock.memory a k := by
  have hstands : (Deferring.after s ops).Stands plc.tags plc.sock.memory handle := by
    have hmeets : Meets Deferring.step (fun _ o => plcPart o.handle = plcPart handle)
        { lib := s } ops := by
      apply (meets_iff_split _ _ _ _).mpr
      intro pre o post heq
      apply hops
      rw [heq]
      exact List.mem_append_right _ List.mem_cons_self
    have hstart : ({ lib := s } : Deferring).Stands plc.tags plc.sock.memory handle :=
      ⟨plc, hfind, [], [], hidle.account plc.sock.memory, Ledger.start, fun _ hw => nomatch hw⟩
    exact (along_of_meets Deferring.step (fun _ _ h ho => h.step ho) hstart hmeets).last
  obtain ⟨plc', hfind', hkept⟩ := hstands
  rw [hlast] at hfind'
  obtain rfl := Option.some.inj hfind'
  generalize Deferring.after s ops = d at *
  obtain ⟨hid, ⟨applied, waiting, haccount, hledger, _⟩, hsettled⟩ := hkept.flush
  obtain ⟨lib, hflush, hfound⟩ := onPlc_of_find hlast
    (fun plc => plc.flushPendingWrites Controller.net) hid
  have hidle' := hsettled hstate hup
  have hnone : waiting = [] := by
    apply List.eq_nil_iff_forall_not_mem.mpr
    intro w hw
    obtain ⟨t, ht, _, hpending⟩ := haccount.held w hw
    rw [hidle' t ht] at hpending
    cases hpending
  subst hnone
  have hmemory : (last.flushPendingWrites Controller.net).2.sock.memory =
      replay (Write.apply plc.tags) applied plc.sock.memory := by
    funext a k
    apply haccount.memory (a, k)
    intro t ht hpending
    rw [hidle' t ht] at hpending
    cases hpending
  refine ⟨_, ?_, hidle', ⟨applied, ?_, ?_, hmemory⟩, ?_⟩
  · rw [s7TagFlush, hflush]
    exact hfound
  · have hperm := hledger.perm
    rw [List.append_nil] at hperm
    exact hperm
  · have hordered := hledger.ordered
    rw [List.append_nil] at hordered
    exact hordered
  · intro a k hk
    rw [hmemory]
    exact hledger.replay_eq (write_overwrites plc.tags) hk plc.sock.memory

/-- `MB0` and `M0.0`, in the order they are registered. -/
def overlapPlc : S7Plc Controller :=
  (((S7Plc.new Controller.net 0 "10.0.0.1".toList).s7RegisterTag 0 "MB0".toList).2.s7RegisterTag 1
    "M0.0".toList).2

/-- `M0.0` is set, `MB0` is cleared, both deferred; then the link comes up. -/
def overlapEvents : List Event :=
  [.write 16777217 1, .write 16777216 0, .polled 16777216 { overlapPlc with state := 2 }]

/-- The flush sends `MB0` first: the bit that was set before it was cleared ends up set. -/
theorem overlapping_writes_reordered :
    (((Deferring.after { s7Plcs := [overlapPlc] } overlapEvents).lib.s7Plcs.find?
        (hasPlcId 16777216)).map fun plc => (plc.state, plc.sock.links)) = some (2, []) ∧
    (((s7TagFlush Controller.net (Deferring.after { s7Plcs := [overlapPlc] }
        overlapEvents).lib 16777216).2.s7Plcs.find? (hasPlcId 16777216)).map
          fun plc => plc.sock.memory .M 0) = some true ∧
    replay (Write.apply overlapPlc.tags) (Deferring.after { s7Plcs := [overlapPlc] }
      overlapEvents).issued overlapPlc.sock.memory .M 0 = false := by
  decide +kernel

/-- Two values for `MB0`, the first of them on a link that loses the acknowledgement. -/
def retriedEvents : List Event :=
  [.polled 16777216 { overlapPlc with
      state := 2, sock := { overlapPlc.sock with links := [.lost 0] } },
    .write 16777216 5, .write 16777216 7, .polled 16777216 { overlapPlc with state := 2 }]

/-- Deferred writes to one tag end up as if they had been sent at once. -/
theorem retried_writes_replayed :
    ∃ flushed, (s7TagFlush Controller.net (Deferring.after { s7Plcs := [overlapPlc] }
        retriedEvents).lib 16777216).2.s7Plcs.find? (hasPlcId 16777216) = some flushed ∧
      (∀ tag ∈ flushed.tags, tag.writePending = false) ∧
      ∀ a k, flushed.sock.memory a k = replay (Write.apply overlapPlc.tags)
        (Deferring.after { s7Plcs := [overlapPlc] } retriedEvents).issued overlapPlc.sock.memory
        a k := by
  have hlast : ((Deferring.after { s7Plcs := [overlapPlc] } retriedEvents).lib.s7Plcs.find?
      (hasPlcId 16777216)).map (fun plc => (plc.state, plc.sock.links)) = some (2, []) := by
    decide +kernel
  have hslots : (Deferring.after { s7Plcs := [overlapPlc] } retriedEvents).issued.map
      (fun w => w.op.slot) = [0, 0] := by
    decide +kernel
  have hslot : ∀ w ∈ (Deferring.after { s7Plcs := [overlapPlc] } retriedEvents).issued,
      w.op.slot = 0 := by
    intro w hw
    have hmem := List.mem_map_of_mem (f := fun w => w.op.slot) hw
    rw [hslots] at hmem
    simpa only [List.mem_cons, List.not_mem_nil, or_false, or_self] using hmem
  obtain ⟨last, hfound, hstate⟩ := Option.map_eq_some_iff.mp hlast
  obtain ⟨hstate, hlinks⟩ := Prod.mk.inj hstate
  obtain ⟨flushed, hflushed, hidle, _, hmemory⟩ := deferred_writes_replayed
    (rfl : ({ s7Plcs := [overlapPlc] } : S7State Controller).s7Plcs.find? (hasPlcId 16777216) =
      some overlapPlc)
    (((idle_new Controller.net 0 _).s7RegisterTag 0 _).s7RegisterTag 1 _)
    (show ∀ o ∈ retriedEvents, plcPart o.handle = plcPart 16777216 by decide) hfound hstate
    (by rw [hlinks]; exact fun l hl => nomatch hl)
  refine ⟨flushed, hflushed, hidle, ?_⟩
  intro a k
  apply hmemory
  intro x hx y hy _ _ _
  exact .inr ((hslot x hx).trans (hslot y hy).symm)

end OipComms.S7
