import OipComms.Lib.Deferral
import OipComms.S7.RoundTrip

/-!
# Cached writes

What a write does to the memory of the controller, and the account of a connection some of whose
writes are cached in its tags: which writes the memory shows, and which wait for a flush.
-/

namespace OipComms.S7

open Deferral FirstMatch

universe u

/-! ## Writes and their effect -/

/-- A value given to `S7_tag_set_*` and sent with `S7_tag_write`. -/
structure Write where
  handle : Int
  value : UInt64
  deriving DecidableEq, Repr

/-- The tag a write is for. -/
def Write.slot (w : Write) : Int := tagPart w.handle

/-- What carrying out a tag's pending write does to the memory. -/
def S7Tag.carriedOut (tag : S7Tag) (m : Memory) : Memory :=
  match tag.mem with
  | some area => (tag.job area).apply m
  | none => m

/-- What a write does to the memory, by the tags of the connection. -/
def Write.apply (tags : List S7Tag) (w : Write) (m : Memory) : Memory :=
  match tags.find? (hasId w.handle) with
  | some tag => (tag.s7Write w.value).carriedOut m
  | none => m

/-- The bits a tag stands for. -/
def S7Tag.Holds (tag : S7Tag) (place : Area × Nat) : Prop :=
  tag.mem = some place.1 ∧ tag.Covers place.2

/-- The bits a write sets. -/
def Write.Covers (tags : List S7Tag) (w : Write) (place : Area × Nat) : Prop :=
  ∃ tag, tags.find? (hasId w.handle) = some tag ∧ tag.Holds place

/-- The bit at a place. -/
def Memory.bit (m : Memory) (place : Area × Nat) : Bool := m place.1 place.2

/-- A write leaves the bits its tag does not hold. -/
theorem carriedOut_frame {tag : S7Tag} {place : Area × Nat} (h : ¬ tag.Holds place) (m : Memory) :
    (tag.carriedOut m).bit place = m.bit place := by
  unfold S7Tag.carriedOut
  cases hmem : tag.mem with
  | none => rfl
  | some area =>
    show (tag.job area).apply m place.1 place.2 = _
    rw [job_apply, if_neg ?_]
    · rfl
    · rintro ⟨harea, hcovers⟩
      exact h ⟨by rw [hmem, harea], hcovers⟩

/-- A write sets the bits its tag holds, whatever they were. -/
theorem carriedOut_sets {tag : S7Tag} {place : Area × Nat} (h : tag.Holds place) (m m' : Memory) :
    (tag.carriedOut m).bit place = (tag.carriedOut m').bit place := by
  obtain ⟨hmem, hcovers⟩ := h
  have hin : place.1 = place.1 ∧ tag.Covers place.2 := ⟨rfl, hcovers⟩
  unfold S7Tag.carriedOut
  rw [hmem]
  show (tag.job place.1).apply m place.1 place.2 = (tag.job place.1).apply m' place.1 place.2
  rw [job_apply, job_apply, if_pos hin, if_pos hin]

/-- Writes to tags put what they put, whatever was there. -/
theorem write_overwrites (tags : List S7Tag) :
    Overwrites (Write.apply tags) Memory.bit (Write.Covers tags) := by
  constructor
  · intro w m place h
    unfold Write.apply
    cases hfind : tags.find? (hasId w.handle) with
    | none => rfl
    | some tag =>
      have hout : ¬ (tag.s7Write w.value).Holds place := fun hholds => h ⟨tag, hfind, hholds⟩
      exact carriedOut_frame hout m
  · rintro w m m' place ⟨tag, hfind, hholds⟩
    unfold Write.apply
    rw [hfind]
    exact carriedOut_sets (show (tag.s7Write w.value).Holds place from hholds) m m'

/-! ## Idle connections -/

/-- A tag as it was registered. -/
def S7Tag.registered (tag : S7Tag) : S7Tag := { tag with pendingValue := 0, writePending := false }

/-- A connection as the registration of its tags leaves it. -/
def S7Plc.Idle {σ : Type u} (plc : S7Plc σ) : Prop :=
  ∀ tag ∈ plc.tags, tag.Sized ∧ tag.mem ≠ none ∧ tag.writePending = false

/-- A new connection has no write pending. -/
theorem idle_new {σ : Type u} (net : Net σ) (c : Nat) (host : CStr) : (S7Plc.new net c host).Idle :=
  fun _ h => nomatch h

/-- Registration keeps a connection idle. -/
theorem S7Plc.Idle.s7RegisterTag {σ : Type u} {plc : S7Plc σ} (h : plc.Idle) (c : Nat)
    (tagName : CStr) : (plc.s7RegisterTag c tagName).2.Idle := by
  rcases plc.s7RegisterTag_cases c tagName with ⟨_, hsame, _⟩ | ⟨_, tag, area, hdecode, hmem, _, hadd⟩
  · rw [hsame]
    exact h
  · rw [hadd]
    intro t ht
    rw [S7Plc.addTag_tags] at ht
    rcases List.mem_append.mp ht with ht | ht
    · exact h t ht
    · obtain rfl := List.mem_singleton.mp ht
      have hdecoded := decodeTag_decoded hdecode
      have hsome : t.mem ≠ none := by
        rw [hmem]
        exact Option.some_ne_none area
      exact ⟨hdecoded.byteQty hsome, hsome, hdecoded.writePending⟩

/-! ## The account of a connection -/

/-- A handle finds the same tag among those that were registered. -/
theorem find?_registered (tags : List S7Tag) (handle : Int) :
    (tags.map S7Tag.registered).find? (hasId handle) =
      (tags.find? (hasId handle)).map S7Tag.registered := List.find?_map

/-- A write does the same through the tags as they were registered. -/
theorem apply_registered (tags : List S7Tag) :
    Write.apply (tags.map S7Tag.registered) = Write.apply tags := by
  funext w m
  unfold Write.apply
  rw [find?_registered]
  cases tags.find? (hasId w.handle) <;> rfl

/-- A write covers the same through the tags as they were registered. -/
theorem covers_registered (tags : List S7Tag) :
    Write.Covers (tags.map S7Tag.registered) = Write.Covers tags := by
  funext w place
  unfold Write.Covers
  rw [find?_registered]
  cases tags.find? (hasId w.handle) with
  | none => rfl
  | some tag =>
    apply propext
    constructor
    · rintro ⟨_, heq, hholds⟩
      cases heq
      exact ⟨tag, rfl, hholds⟩
    · rintro ⟨_, heq, hholds⟩
      cases heq
      exact ⟨_, rfl, hholds⟩

/-- How a connection stands after the writes `applied`, with the writes `waiting` cached in its
tags: what waits is pending, a pending tag has the last value of those that wait for it, and
wherever no tag is pending the memory is what the writes made it. -/
structure Account (tags₀ : List S7Tag) (m₀ : Memory) (tags : List S7Tag) (m : Memory)
    (applied waiting : List (Issued Write)) : Prop where
  sized : ∀ tag ∈ tags, tag.Sized ∧ tag.mem ≠ none
  registered : tags.map S7Tag.registered = tags₀.map S7Tag.registered
  first : tags.Pairwise fun t t' => t.identifier = t'.identifier → t'.writePending = false
  held : ∀ w ∈ waiting, ∃ tag ∈ tags,
    (tag.identifier : Int) = w.op.slot ∧ tag.writePending = true
  last : ∀ tag ∈ tags, tag.writePending = true →
    ∃ earlier w, ofSlot Write.slot (tag.identifier : Int) waiting = earlier ++ [w] ∧
      w.op.value = tag.pendingValue
  memory : ∀ place, (∀ tag ∈ tags, tag.writePending = true → ¬ tag.Holds place) →
    m.bit place = (replay (Write.apply tags₀) applied m₀).bit place

variable {tags₀ tags : List S7Tag} {m₀ m : Memory} {applied waiting : List (Issued Write)}

/-- On an idle connection there is nothing to account for. -/
theorem S7Plc.Idle.account {plc : S7Plc Controller} (h : plc.Idle) (m : Memory) :
    Account plc.tags m plc.tags m [] [] := by
  refine ⟨fun tag ht => ⟨(h tag ht).1, (h tag ht).2.1⟩, rfl, ?_, fun w hw => (nomatch hw), ?_,
    fun place _ => rfl⟩
  · apply List.pairwise_iff_forall_sublist.mpr
    intro t t' hsub _
    exact (h t' (hsub.subset (List.mem_cons_of_mem _ List.mem_cons_self))).2.2
  · intro tag ht hpending
    rw [(h tag ht).2.2] at hpending
    cases hpending

namespace Account

/-- The writes do the same through the tags as they are. -/
theorem apply_eq (h : Account tags₀ m₀ tags m applied waiting) :
    Write.apply tags₀ = Write.apply tags := by
  rw [← apply_registered tags₀, ← h.registered, apply_registered]

/-- The writes cover the same through the tags as they are. -/
theorem covers_eq (h : Account tags₀ m₀ tags m applied waiting) :
    Write.Covers tags₀ = Write.Covers tags := by
  rw [← covers_registered tags₀, ← h.registered, covers_registered]

variable {front back : List S7Tag} {tag : S7Tag}

/-- The search for a pending tag finds it. -/
theorem find (h : Account tags₀ m₀ tags m applied waiting) (htags : tags = front ++ tag :: back)
    (hpending : tag.writePending = true) {handle : Int} (hhandle : tagPart handle = tag.identifier) :
    tags.find? (hasId handle) = some tag := by
  have hfirst := h.first
  rw [htags] at hfirst ⊢
  apply find?_append_cons back
  · intro t ht
    have hpair := (List.pairwise_append.mp hfirst).2.2 t ht tag List.mem_cons_self
    rw [hasId, hhandle]
    apply decide_eq_false
    intro heq
    have hno := hpair (by omega)
    rw [hpending] at hno
    cases hno
  · rw [hasId, hhandle]
    exact decide_eq_true rfl

/-- A memory that changes at most where a tag is pending. -/
theorem congr (h : Account tags₀ m₀ tags m applied waiting) {m' : Memory}
    (hm : ∀ place, (∀ tag ∈ tags, tag.writePending = true → ¬ tag.Holds place) →
      m'.bit place = m.bit place) : Account tags₀ m₀ tags m' applied waiting := by
  refine ⟨h.sized, h.registered, h.first, h.held, h.last, ?_⟩
  intro place hplace
  rw [hm place hplace, h.memory place hplace]

/-- One tag of a connection in another state: its address stays, and it is pending only where it
was the first of its identifier. -/
theorem replaced (h : Account tags₀ m₀ tags m applied waiting) (htags : tags = front ++ tag :: back)
    {tag' : S7Tag} (hsame : tag'.registered = tag.registered)
    (hfirst : ∀ t ∈ front, t.identifier = tag.identifier → tag'.writePending = false) :
    (∀ t ∈ front ++ tag' :: back, t.Sized ∧ t.mem ≠ none) ∧
    (front ++ tag' :: back).map S7Tag.registered = tags₀.map S7Tag.registered ∧
    (front ++ tag' :: back).Pairwise
      fun t t' => t.identifier = t'.identifier → t'.writePending = false := by
  have hid : tag'.identifier = tag.identifier :=
    show tag'.registered.identifier = tag.registered.identifier by rw [hsame]
  have hsized := h.sized
  have hregistered := h.registered
  have hpairs := h.first
  rw [htags] at hsized hregistered hpairs
  refine ⟨?_, ?_, ?_⟩
  · intro t ht
    rcases List.mem_append.mp ht with ht | ht
    · exact hsized t (List.mem_append_left _ ht)
    · rcases List.mem_cons.mp ht with rfl | ht
      · obtain ⟨hsize, hmem⟩ := hsized tag (List.mem_append_right _ List.mem_cons_self)
        have hsize' : t.registered.Sized ∧ t.registered.mem ≠ none := by
          rw [hsame]
          exact ⟨hsize, hmem⟩
        exact hsize'
      · exact hsized t (List.mem_append_right _ (List.mem_cons_of_mem _ ht))
  · rw [← hregistered]
    simp only [List.map_append, List.map_cons, hsame]
  · obtain ⟨hfront, hrest, hcross⟩ := List.pairwise_append.mp hpairs
    obtain ⟨htag, hback⟩ := List.pairwise_cons.mp hrest
    apply List.pairwise_append.mpr
    refine ⟨hfront, List.pairwise_cons.mpr ⟨?_, hback⟩, ?_⟩
    · intro t ht heq
      exact htag t ht (by rw [← hid, heq])
    · intro t ht t' ht' heq
      rcases List.mem_cons.mp ht' with rfl | ht'
      · exact hfirst t ht (by rw [heq, hid])
      · exact hcross t ht t' (List.mem_cons_of_mem _ ht') heq

/-- The identifiers of a pending tag and of another pending tag differ. -/
theorem other (h : Account tags₀ m₀ tags m applied waiting) (htags : tags = front ++ tag :: back)
    (hpending : tag.writePending = true) {t : S7Tag} (ht : t ∈ front ++ back)
    (ht' : t.writePending = true) : t.identifier ≠ tag.identifier := by
  have hpairs := h.first
  rw [htags] at hpairs
  obtain ⟨_, hrest, hcross⟩ := List.pairwise_append.mp hpairs
  intro heq
  rcases List.mem_append.mp ht with ht | ht
  · have hno := hcross t ht tag List.mem_cons_self heq
    rw [hpending] at hno
    cases hno
  · have hno := (List.pairwise_cons.mp hrest).1 t ht heq.symm
    rw [ht'] at hno
    cases hno

/-- The memory after the writes that wait for a tag: the pending value where the tag is. -/
theorem settled_bit (h : Account tags₀ m₀ tags m applied waiting)
    (htags : tags = front ++ tag :: back) (hpending : tag.writePending = true)
    {place : Area × Nat}
    (hplace : ∀ t ∈ front ++ back, t.writePending = true → ¬ t.Holds place) :
    (tag.carriedOut m).bit place =
      (replay (Write.apply tags₀) (applied ++ ofSlot Write.slot (tag.identifier : Int) waiting)
        m₀).bit place := by
  have hover := write_overwrites tags₀
  have hmem : tag ∈ tags := by
    rw [htags]
    exact List.mem_append_right _ List.mem_cons_self
  by_cases hholds : tag.Holds place
  · -- the last of the writes is the value that was sent
    obtain ⟨earlier, w, hlast, hvalue⟩ := h.last tag hmem hpending
    have hw : w ∈ ofSlot Write.slot (tag.identifier : Int) waiting := by
      rw [hlast]
      exact List.mem_append_right _ (List.mem_singleton_self w)
    have hfind := h.find htags hpending (mem_ofSlot.mp hw).2
    have hcovers : Write.Covers tags₀ w.op place := by
      rw [h.covers_eq]
      exact ⟨tag, hfind, hholds⟩
    have happly : Write.apply tags₀ w.op m = tag.carriedOut m := by
      rw [h.apply_eq, Write.apply, hfind]
      show (tag.s7Write w.op.value).carriedOut _ = _
      rw [hvalue]
      show ({ tag with writePending := true } : S7Tag).carriedOut _ = _
      rfl
    rw [hlast, ← List.append_assoc, hover.replay_last hcovers _ m, happly]
  · have hout : ∀ w ∈ ofSlot Write.slot (tag.identifier : Int) waiting,
        ¬ Write.Covers tags₀ w.op place := by
      intro w hw
      rw [h.covers_eq]
      rintro ⟨t, hfound, ht⟩
      rw [h.find htags hpending (mem_ofSlot.mp hw).2] at hfound
      obtain rfl := Option.some.inj hfound
      exact hholds ht
    rw [carriedOut_frame hholds, replay_append, hover.replay_frame hout]
    apply h.memory
    intro t ht ht'
    rw [htags] at ht
    rcases List.mem_append.mp ht with hin | hin
    · exact hplace t (List.mem_append_left _ hin) ht'
    · rcases List.mem_cons.mp hin with rfl | hin
      · exact hholds
      · exact hplace t (List.mem_append_right _ hin) ht'

/-- A pending tag is sent and acknowledged: its writes take effect. -/
theorem settle (h : Account tags₀ m₀ tags m applied waiting) (htags : tags = front ++ tag :: back)
    (hpending : tag.writePending = true) :
    Account tags₀ m₀ (front ++ { tag with writePending := false } :: back) (tag.carriedOut m)
      (applied ++ ofSlot Write.slot (tag.identifier : Int) waiting)
      (notOfSlot Write.slot (tag.identifier : Int) waiting) := by
  obtain ⟨tags', htags'⟩ : ∃ tags', tags' = front ++ { tag with writePending := false } :: back :=
    ⟨_, rfl⟩
  obtain ⟨hsized, hregistered, hfirst⟩ := h.replaced htags
    (rfl : ({ tag with writePending := false } : S7Tag).registered = tag.registered)
    (fun _ _ _ => rfl)
  rw [← htags'] at hsized hregistered hfirst ⊢
  -- what is pending now was pending, and is another tag
  have hothers : ∀ t ∈ tags', t.writePending = true → t ∈ front ++ back := by
    intro t ht ht'
    rw [htags'] at ht
    rcases List.mem_append.mp ht with hin | hin
    · exact List.mem_append_left _ hin
    · rcases List.mem_cons.mp hin with rfl | hin
      · cases ht'
      · exact List.mem_append_right _ hin
  have hin : ∀ t ∈ front ++ back, t ∈ tags ∧ t ∈ tags' := by
    intro t ht
    rw [htags, htags']
    rcases List.mem_append.mp ht with ht | ht
    · exact ⟨List.mem_append_left _ ht, List.mem_append_left _ ht⟩
    · exact ⟨List.mem_append_right _ (List.mem_cons_of_mem _ ht),
        List.mem_append_right _ (List.mem_cons_of_mem _ ht)⟩
  refine ⟨hsized, hregistered, hfirst, ?_, ?_, ?_⟩
  · intro w hw
    obtain ⟨hw, hslot⟩ := mem_notOfSlot.mp hw
    obtain ⟨t, ht, hid, ht'⟩ := h.held w hw
    refine ⟨t, ?_, hid, ht'⟩
    rw [htags] at ht
    rcases List.mem_append.mp ht with ht | ht
    · exact (hin t (List.mem_append_left _ ht)).2
    · rcases List.mem_cons.mp ht with rfl | ht
      · exact absurd hid.symm hslot
      · exact (hin t (List.mem_append_right _ ht)).2
  · intro t ht ht'
    have hother := hothers t ht ht'
    have hne := h.other htags hpending hother ht'
    obtain ⟨earlier, w, hlast, hvalue⟩ := h.last t (hin t hother).1 ht'
    refine ⟨earlier, w, ?_, hvalue⟩
    rw [ofSlot_notOfSlot (by omega), hlast]
  · intro place hplace
    apply h.settled_bit htags hpending
    intro t ht ht'
    exact hplace t (hin t ht).2 ht'

/-- A value is cached: one more write waits for the tag. -/
theorem cache (h : Account tags₀ m₀ tags m applied waiting) (htags : tags = front ++ tag :: back)
    {handle : Int} (hfront : ∀ t ∈ front, hasId handle t = false) (htag : hasId handle tag = true)
    {w : Issued Write} (hw : w.op.handle = handle) :
    Account tags₀ m₀ (front ++ tag.s7Write w.op.value :: back) m applied (waiting ++ [w]) := by
  have hid : (tag.identifier : Int) = w.op.slot := by
    rw [Write.slot, hw]
    exact of_decide_eq_true htag
  have hbefore : ∀ t ∈ front, t.identifier ≠ tag.identifier := by
    intro t ht heq
    have hno := hfront t ht
    rw [hasId, heq] at hno
    exact of_decide_eq_false hno (of_decide_eq_true htag)
  obtain ⟨tags', htags'⟩ : ∃ tags', tags' = front ++ tag.s7Write w.op.value :: back := ⟨_, rfl⟩
  obtain ⟨hsized, hregistered, hfirst⟩ := h.replaced htags
    (rfl : (tag.s7Write w.op.value).registered = tag.registered)
    (fun t ht heq => absurd heq (hbefore t ht))
  rw [← htags'] at hsized hregistered hfirst ⊢
  have hcached : tag.s7Write w.op.value ∈ tags' := by
    rw [htags']
    exact List.mem_append_right _ List.mem_cons_self
  have hback : ∀ t ∈ back, t.identifier = tag.identifier → t.writePending = false := by
    have hpairs := h.first
    rw [htags] at hpairs
    intro t ht heq
    exact (List.pairwise_cons.mp (List.pairwise_append.mp hpairs).2.1).1 t ht heq.symm
  refine ⟨hsized, hregistered, hfirst, ?_, ?_, ?_⟩
  · intro w' hw'
    rcases List.mem_append.mp hw' with hw' | hw'
    · obtain ⟨t, ht, hslot, ht'⟩ := h.held w' hw'
      rw [htags] at ht
      rw [htags']
      rcases List.mem_append.mp ht with ht | ht
      · exact ⟨t, List.mem_append_left _ ht, hslot, ht'⟩
      · rcases List.mem_cons.mp ht with rfl | ht
        · exact ⟨_, List.mem_append_right _ List.mem_cons_self, hslot, rfl⟩
        · exact ⟨t, List.mem_append_right _ (List.mem_cons_of_mem _ ht), hslot, ht'⟩
    · obtain rfl := List.mem_singleton.mp hw'
      exact ⟨_, hcached, hid, rfl⟩
  · intro t ht ht'
    by_cases hsame : t.identifier = tag.identifier
    · have heq : t = tag.s7Write w.op.value := by
        rw [htags'] at ht
        rcases List.mem_append.mp ht with ht | ht
        · exact absurd hsame (hbefore t ht)
        · rcases List.mem_cons.mp ht with rfl | ht
          · rfl
          · have hno := hback t ht hsame
            rw [ht'] at hno
            cases hno
      refine ⟨ofSlot Write.slot (t.identifier : Int) waiting, w, ?_, by rw [heq]; rfl⟩
      rw [ofSlot_append, hsame, hid]
      exact congrArg _ (List.filter_cons_of_pos (decide_eq_true rfl))
    · have hold : t ∈ tags := by
        rw [htags'] at ht
        rw [htags]
        rcases List.mem_append.mp ht with ht | ht
        · exact List.mem_append_left _ ht
        · rcases List.mem_cons.mp ht with rfl | ht
          · exact absurd rfl hsame
          · exact List.mem_append_right _ (List.mem_cons_of_mem _ ht)
      obtain ⟨earlier, w', hlast, hvalue⟩ := h.last t hold ht'
      refine ⟨earlier, w', ?_, hvalue⟩
      have hnone : ofSlot Write.slot (t.identifier : Int) [w] = [] := by
        apply List.filter_cons_of_neg
        rw [decide_eq_true_iff]
        omega
      rw [ofSlot_append, hlast, hnone, List.append_nil]
  · intro place hplace
    apply h.memory
    intro t ht ht' hholds
    rw [htags] at ht
    rcases List.mem_append.mp ht with ht | ht
    · exact hplace t (by rw [htags']; exact List.mem_append_left _ ht) ht' hholds
    · rcases List.mem_cons.mp ht with rfl | ht
      · exact hplace _ hcached rfl hholds
      · exact hplace t (by rw [htags']; exact List.mem_append_right _ (List.mem_cons_of_mem _ ht))
          ht' hholds

end Account

end OipComms.S7
