import OipComms.S7.Deferred
import OipComms.S7.OneHost

/-!
# A connection that is written to while tags are added

`S7/Deferred.lean` follows the writes on a connection whose tags stay. Here a tag may be registered
between two writes, as a poll does for a name it meets the first time: the account of the writes goes
on, for the identifier of a new tag is in no handle that was written to.
-/

namespace OipComms.S7

open Deferral FirstMatch

variable {tags₀ tags : List S7Tag} {m₀ m : Memory} {issued applied waiting : List (Issued Write)}

/-! ## One more tag -/

theorem apply_append {w : Write} {tag : S7Tag} (hnew : w.slot ≠ tag.identifier) (tags : List S7Tag) :
    Write.apply (tags ++ [tag]) w = Write.apply tags w := by
  funext m
  have hno : hasId w.handle tag = false := decide_eq_false fun heq => hnew heq.symm
  unfold Write.apply
  rw [List.find?_append]
  cases tags.find? (hasId w.handle) with
  | some t => rfl
  | none =>
    rw [Option.none_or, List.find?_cons_of_neg (by rw [hno]; exact Bool.false_ne_true)]
    rfl

/-- A tag is registered that no write was for. -/
theorem Account.addTag (h : Account tags₀ m₀ tags m applied waiting) {tag : S7Tag}
    (hsized : tag.Sized ∧ tag.mem ≠ none) (hidle : tag.writePending = false)
    (hnew : ∀ w ∈ applied, w.op.slot ≠ tag.identifier) :
    Account (tags₀ ++ [tag]) m₀ (tags ++ [tag]) m applied waiting := by
  have hpends : ∀ t ∈ tags ++ [tag], t.writePending = true → t ∈ tags := by
    intro t ht hpending
    rcases List.mem_append.mp ht with ht | ht
    · exact ht
    · rw [List.mem_singleton.mp ht, hidle] at hpending
      cases hpending
  refine ⟨fun t ht => ?_, ?_, ?_, fun w hw => ?_, fun t ht hpending => ?_, fun place hplace => ?_⟩
  · rcases List.mem_append.mp ht with ht | ht
    · exact h.sized t ht
    · rw [List.mem_singleton.mp ht]
      exact hsized
  · rw [List.map_append, List.map_append, h.registered]
  · refine List.pairwise_append.mpr ⟨h.first, List.pairwise_singleton _ _, ?_⟩
    intro t _ t' ht' _
    rw [List.mem_singleton.mp ht']
    exact hidle
  · obtain ⟨t, ht, hrest⟩ := h.held w hw
    exact ⟨t, List.mem_append_left _ ht, hrest⟩
  · exact h.last t (hpends t ht hpending) hpending
  · rw [h.memory place fun t ht => hplace t (List.mem_append_left _ ht)]
    rw [replay_agree fun w hw => (apply_append (hnew w hw) tags₀).symm]

/-- The writes are accounted for with the tags as they are now. -/
theorem Kept.rebase (h : Kept tags₀ m₀ issued tags m) : Kept tags m₀ issued tags m := by
  obtain ⟨applied, waiting, haccount, hrest⟩ := h
  refine ⟨applied, waiting, ⟨haccount.sized, rfl, haccount.first, haccount.held, haccount.last, ?_⟩,
    hrest⟩
  rw [← haccount.apply_eq]
  exact haccount.memory

theorem Kept.addTag (h : Kept tags m₀ issued tags m) {tag : S7Tag}
    (hsized : tag.Sized ∧ tag.mem ≠ none) (hidle : tag.writePending = false)
    (hnew : ∀ w ∈ issued, w.op.slot ≠ tag.identifier) :
    Kept (tags ++ [tag]) m₀ issued (tags ++ [tag]) m := by
  obtain ⟨applied, waiting, haccount, hledger, hlate⟩ := h
  refine ⟨applied, waiting, haccount.addTag hsized hidle fun w hw => ?_, hledger, hlate⟩
  exact hnew w (hledger.perm.mem_iff.mp (List.mem_append_left _ hw))

/-! ## The connection of a library with one host -/

/-- The library has one connection, and what the controller holds is accounted for by the writes
issued; each was for a handle already given out. -/
structure Serving (m₀ : Memory) (issued : List (Issued Write)) (s : S7State Controller)
    (plc : S7Plc Controller) : Prop where
  plcs : s.s7Plcs = [plc]
  kept : Kept plc.tags m₀ issued plc.tags plc.sock.memory
  handles : ∀ w ∈ issued, ∃ id < s.tagIdCounter, w.op.handle = 16777216 + (id : Int)

namespace Serving

variable {s : S7State Controller} {plc : S7Plc Controller}

theorem create (h : Serving m₀ issued s plc) {tagName : CStr}
    (hcounts : s.tagIdCounter + 1 < 16777216) :
    ∃ plc', Serving m₀ issued (s7TagCreate Controller.net s plc.plcHostName tagName).2 plc' ∧
      plc'.state = plc.state ∧ plc'.sock = plc.sock := by
  rw [s7TagCreate_single h.plcs, nextTagId_eq hcounts]
  have hhandles : ∀ w ∈ issued, ∃ id < s.tagIdCounter + 1, w.op.handle = 16777216 + (id : Int) := by
    intro w hw
    obtain ⟨id, hid, hhandle⟩ := h.handles w hw
    exact ⟨id, Nat.lt_succ_of_lt hid, hhandle⟩
  rcases plc.s7RegisterTag_cases s.tagIdCounter tagName with
    ⟨-, hsame, -⟩ | ⟨-, tag, area, hdecode, hmem, -, hreg⟩
  · rw [hsame]
    exact ⟨plc, ⟨rfl, h.kept, hhandles⟩, rfl, rfl⟩
  · have hdecoded := decodeTag_decoded hdecode
    have hsome : tag.mem ≠ none := by
      rw [hmem]
      exact Option.some_ne_none area
    rw [hreg]
    refine ⟨plc.addTag area tag, ⟨rfl, ?_, hhandles⟩, ?_, ?_⟩
    · have hsock : (plc.addTag area tag).sock = plc.sock := plc.setBlock_sock area _
      rw [S7Plc.addTag_tags, hsock]
      refine h.kept.addTag ⟨hdecoded.byteQty hsome, hsome⟩ hdecoded.writePending fun w hw => ?_
      obtain ⟨id, hid, hhandle⟩ := h.handles w hw
      rw [Write.slot, hhandle, tagPart, hdecoded.identifier]
      omega
    · exact plc.setBlock_state area _
    · exact plc.setBlock_sock area _

/-- A call by handle on the one connection. -/
theorem onPlc_single (hone : s.s7Plcs = [plc]) {handle : Int} (hhas : hasPlcId handle plc = true)
    (act : S7Plc Controller → Int × S7Plc Controller) :
    onPlc handle act s = ((act plc).1, { s with s7Plcs := [(act plc).2] }) := by
  simp only [onPlc, hone, firstMatch, hhas, if_true]

theorem write (h : Serving m₀ issued s plc) {handle : Int} (hhas : hasPlcId handle plc = true)
    {id : Nat} (hid : id < s.tagIdCounter) (hhandle : handle = 16777216 + (id : Int))
    (value : UInt64) :
    ∃ ret s' plc', s7TagWrite Controller.net (s7WriteTag s handle value).2 handle = (ret, s') ∧
      s'.tagIdCounter = s.tagIdCounter ∧
      Serving m₀ (issued ++ [⟨⟨handle, value⟩, issued.length, decide (ret = 0)⟩]) s' plc' := by
  obtain ⟨cached, plc₁, ret, plc₂, hcache, hsend, hid₁, -, hkept⟩ := h.kept.write handle value
  have hhas₁ : hasPlcId handle plc₁ = true := by
    rw [hasPlcId, hid₁]
    exact hhas
  refine ⟨ret, { s with s7Plcs := [plc₂] }, plc₂, ?_, rfl, rfl, hkept.rebase, ?_⟩
  · have hone : ({ s with s7Plcs := [plc₁] } : S7State Controller).s7Plcs = [plc₁] := rfl
    simp only [s7WriteTag, onPlc_single h.plcs hhas, hcache]
    rw [s7TagWrite, onPlc_single hone hhas₁, hsend]
  · intro w hw
    rcases List.mem_append.mp hw with hw | hw
    · exact h.handles w hw
    · rw [List.mem_singleton.mp hw]
      exact ⟨id, hid, hhandle⟩

/-- A flush over a link that is up leaves nothing pending. -/
theorem flush (h : Serving m₀ issued s plc) (handle : Int) :
    ∃ plc', Serving m₀ issued (s7TagFlush Controller.net s handle).2 plc' ∧
      (hasPlcId handle plc = true → plc.state = 2 → (∀ l ∈ plc.sock.links, l.isUp = true) →
        ∀ tag ∈ plc'.tags, tag.writePending = false) := by
  cases hhas : hasPlcId handle plc with
  | true =>
    obtain ⟨-, hkept, hsettled⟩ := h.kept.flush
    rw [s7TagFlush, onPlc_single h.plcs hhas]
    exact ⟨_, ⟨rfl, hkept.rebase, h.handles⟩, fun _ => hsettled⟩
  | false =>
    have hsame : s7TagFlush Controller.net s handle = (-1, s) := by
      simp only [s7TagFlush, onPlc, h.plcs, firstMatch, hhas, Bool.false_eq_true, if_false,
        Option.map_none]
    rw [hsame]
    exact ⟨plc, h, fun hyes => absurd hyes Bool.false_ne_true⟩

/-- The polling thread leaves the controller's memory as it is. -/
theorem polled (h : Serving m₀ issued s plc) {i : Nat} {seen : S7Plc Controller}
    (hseen : ∀ p ∈ s.s7Plcs[i]?, seen.sock.memory = p.sock.memory) :
    ∃ plc', Serving m₀ issued
      { s with s7Plcs := s.s7Plcs.modify i fun p => p.polledAs seen } plc' := by
  obtain ⟨hplcs, hkept, hhandles⟩ := h
  cases i with
  | zero =>
    refine ⟨plc.polledAs seen, by rw [hplcs]; rfl, ?_, hhandles⟩
    have hmemory := hseen plc (by rw [hplcs]; rfl)
    show Kept plc.tags m₀ issued plc.tags seen.sock.memory
    rw [hmemory]
    exact hkept
  | succ i =>
    refine ⟨plc, ?_, hkept, hhandles⟩
    show s.s7Plcs.modify (i + 1) _ = _
    rw [hplcs, List.modify_succ_cons, List.modify_nil]

/-- When nothing is pending, every write has taken effect. -/
theorem settled (h : Serving m₀ issued s plc) (hidle : ∀ tag ∈ plc.tags, tag.writePending = false) :
    (∃ order, order.Perm issued ∧ order.Pairwise (MayPrecede Write.slot) ∧
      plc.sock.memory = replay (Write.apply plc.tags) order m₀) ∧
    ∀ a k,
      (∀ x ∈ issued, ∀ y ∈ issued, x.op.Covers plc.tags (a, k) → y.op.Covers plc.tags (a, k) →
        x.number < y.number → x.prompt = true ∨ x.op.slot = y.op.slot) →
      plc.sock.memory a k = replay (Write.apply plc.tags) issued m₀ a k := by
  obtain ⟨applied, waiting, haccount, hledger, -⟩ := h.kept
  have hnone : waiting = [] := by
    apply List.eq_nil_iff_forall_not_mem.mpr
    intro w hw
    obtain ⟨t, ht, -, hpending⟩ := haccount.held w hw
    rw [hidle t ht] at hpending
    cases hpending
  subst hnone
  have hmemory : plc.sock.memory = replay (Write.apply plc.tags) applied m₀ := by
    funext a k
    apply haccount.memory (a, k)
    intro t ht hpending
    rw [hidle t ht] at hpending
    cases hpending
  have hperm := hledger.perm
  have hordered := hledger.ordered
  rw [List.append_nil] at hperm hordered
  refine ⟨⟨applied, hperm, hordered, hmemory⟩, fun a k hk => ?_⟩
  rw [hmemory]
  exact hledger.replay_eq (write_overwrites plc.tags) hk m₀

end Serving

end OipComms.S7
