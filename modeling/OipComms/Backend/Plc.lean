import OipComms.Backend.Group

/-!
# Polling a group of libplctag or S7 tags

A tag has a handle from its first poll on. A libplctag tag is initialised when the handle is there;
an S7 tag when the link of its PLC was up once after that.
-/

namespace OipComms.Backend

open Comms (Protocol)
open Sweep

/-- What libplctag and the S7 library answer in a poll. -/
structure PlcEnv where
  plcTagCreate : CStr → Int := fun _ => 0
  plcTagRead : Int → Bool := fun _ => true
  s7TagCreate : CStr → CStr → Int := fun _ _ => 16777216
  s7TagConnected : Int → Bool := fun _ => true

variable {V : Type}

/-- A protocol as it stands in the path of a tag. -/
def protocolName : Protocol → CStr
  | .opcUa => "opc_ua".toList
  | .ads => "ads".toList
  | .rtde => "rtde".toList
  | .mqtt => "mqtt".toList
  | .softPlc => "soft_plc".toList
  | .s7 => "s7".toList
  | .plctag name => name

/-- The path `plc_tag_create` is given. -/
def plcTagPath (g : TagGroup V) (tagName : CStr) (tag : PlcTag) : CStr :=
  "protocol=".toList ++ protocolName g.protocol ++ "&gateway=".toList ++ g.gateway ++
    "&path=".toList ++ g.path ++ "&cpu=".toList ++ g.cpu ++ "&elem_count=".toList ++
    (toString tag.elemCount).toList ++ "&name=".toList ++ tagName

/-- `init_plc_tag`; it goes on if the tag was created. An S7 tag is counted later. -/
def initPlcTag (env : PlcEnv) (g : TagGroup V) (tagName : CStr) (tag : PlcTag) :
    Swept PlcTag (Effect V) :=
  let tagPointer :=
    if g.protocol = .s7 then env.s7TagCreate g.gateway tagName
    else env.plcTagCreate (plcTagPath g tagName tag)
  let tag := { tag with tagPointer := tagPointer }
  if tagPointer < 0 then { entry := tag, out := {}, goes := false }
  else
    { entry := tag
      out :=
        { counted := if g.protocol = .s7 then 0 else 1
          calls := [.acquire (plcResource g.protocol tagPointer)] } }

/-- A tag with its handle, created if it is not there. -/
def ensurePlcTag (env : PlcEnv) (g : TagGroup V) (tagName : CStr) (tag : PlcTag) :
    Swept PlcTag (Effect V) :=
  if tag.tagPointer < 0 then initPlcTag env g tagName tag else { entry := tag, out := {} }

/-- A tag's turn in `process_plc_tag_group`. -/
def pollPlcTag (env : PlcEnv) (g : TagGroup V) (tagName : CStr) (tag : PlcTag) :
    Swept PlcTag (Effect V) :=
  let r := ensurePlcTag env g tagName tag
  if !r.goes then { r with out := { r.out with failed := true } }
  else if g.protocol = .s7 then
    if env.s7TagConnected r.entry.tagPointer then
      { entry := { r.entry with dirty := false, initialized := true }
        out := { r.out with counted := r.out.counted + if r.entry.initialized then 0 else 1 } }
    else r
  else if 0 ≤ r.entry.tagPointer then
    -- `process_plc_read`
    if env.plcTagRead r.entry.tagPointer then
      { r with entry := { r.entry with initialized := true, dirty := false } }
    else { r with out := { r.out with failed := true }, goes := false }
  else r

/-- `process_plc_tag_group`. The deferred writes `S7_tag_flush` sends are the S7 library's. -/
def Visit.processPlcTagGroup (env : PlcEnv) (v : Visit V) : Visit V :=
  let s := sweep (pollPlcTag env v.group) v.group.plcTags
  (v.withGroup { v.group with plcTags := s.entries }).absorb s.outs

/-- A tag that is initialised in the sense of its library. -/
def plcTagInitialized (protocol : Protocol) (tag : PlcTag) : Bool :=
  if protocol = .s7 then tag.initialized else 0 ≤ tag.tagPointer

/-! ## A turn -/

/-- The first half of a turn: either there is a handle afterwards, or creating it failed. -/
structure Ensured (protocol : Protocol) (tag : PlcTag) (r : Swept PlcTag (Effect V)) : Prop where
  law : TurnLaw (plcTagInitialized protocol) (plcTagHolds protocol) tag r
  there : r.goes = true → 0 ≤ r.entry.tagPointer
  failed : r.out.failed = false
  stops : r.out.stops = false

theorem ensurePlcTag_ensured (env : PlcEnv) (g : TagGroup V) (tagName : CStr) (tag : PlcTag) :
    Ensured g.protocol tag (ensurePlcTag env g tagName tag) := by
  unfold ensurePlcTag
  by_cases hpointer : 0 ≤ tag.tagPointer
  · rw [if_neg (Int.not_lt.mpr hpointer)]
    exact ⟨⟨rfl, rfl⟩, fun _ => hpointer, rfl, rfl⟩
  · rw [if_pos (Int.not_le.mp hpointer), initPlcTag]
    generalize (if g.protocol = .s7 then env.s7TagCreate g.gateway tagName
      else env.plcTagCreate (plcTagPath g tagName tag)) = tagPointer
    by_cases hcreated : 0 ≤ tagPointer
    · simp only [if_neg (Int.not_lt.mpr hcreated)]
      refine ⟨⟨?_, ?_⟩, fun _ => hcreated, rfl, rfl⟩
      · by_cases hs7 : g.protocol = .s7
        · simp only [plcTagInitialized, if_pos hs7, Nat.add_zero]
        · simp only [plcTagInitialized, if_neg hs7, hpointer, hcreated, decide_true, decide_false,
            Bool.false_eq_true, if_false, if_true]
      · simp only [plcTagHolds, if_neg hpointer, if_pos hcreated]
        rfl
    · simp only [if_pos (Int.not_le.mp hcreated)]
      refine ⟨⟨?_, ?_⟩, fun hgoes => (nomatch hgoes), rfl, rfl⟩
      · simp only [plcTagInitialized, hpointer, hcreated]
        split <;> rfl
      · simp only [plcTagHolds, if_neg hpointer, if_neg hcreated]
        rfl

/-- A turn counts the tag if it becomes initialised, and holds the handle it is given. -/
theorem pollPlcTag_law (env : PlcEnv) (g : TagGroup V) (tagName : CStr) (tag : PlcTag) :
    TurnLaw (plcTagInitialized g.protocol) (plcTagHolds g.protocol) tag
      (pollPlcTag env g tagName tag) := by
  unfold pollPlcTag
  have hlaw := (ensurePlcTag_ensured env g tagName tag).law
  generalize ensurePlcTag env g tagName tag = r at hlaw
  obtain ⟨hcounts, hholds⟩ := hlaw
  simp only
  split
  · exact ⟨hcounts, hholds⟩
  · split
    · rename_i hs7
      split
      · refine ⟨?_, hholds⟩
        simp only [plcTagInitialized, if_pos hs7] at hcounts ⊢
        rw [← Nat.add_assoc, hcounts]
        cases r.entry.initialized <;> rfl
      · exact ⟨hcounts, hholds⟩
    · rename_i hs7
      split
      · split
        · refine ⟨?_, hholds⟩
          simp only [plcTagInitialized, if_neg hs7] at hcounts ⊢
          exact hcounts
        · exact ⟨hcounts, hholds⟩
      · exact ⟨hcounts, hholds⟩

/-- A turn ends the sweep by setting `has_error`, and only so, and it does not stop the
simulation. -/
theorem pollPlcTag_ends (env : PlcEnv) (g : TagGroup V) (tagName : CStr) (tag : PlcTag) :
    (pollPlcTag env g tagName tag).out.failed = !(pollPlcTag env g tagName tag).goes ∧
      (pollPlcTag env g tagName tag).out.stops = false := by
  unfold pollPlcTag
  obtain ⟨-, -, hfailed, hstops⟩ := ensurePlcTag_ensured env g tagName tag
  generalize ensurePlcTag env g tagName tag = r at hfailed hstops
  simp only
  cases hgoes : r.goes with
  | false =>
    rw [if_pos (by rfl)]
    exact ⟨rfl, hstops⟩
  | true =>
    have hfound : r.out.failed = !r.goes := by
      rw [hfailed, hgoes]
      rfl
    rw [if_neg (by decide)]
    split
    · split
      · exact ⟨hfailed, hstops⟩
      · exact ⟨hfound, hstops⟩
    · split
      · split
        · exact ⟨hfailed, hstops⟩
        · exact ⟨rfl, hstops⟩
      · exact ⟨hfound, hstops⟩

/-- A turn makes no call but to create the tag. -/
theorem pollPlcTag_calls (env : PlcEnv) (g : TagGroup V) (tagName : CStr) (tag : PlcTag) :
    ∀ c ∈ (pollPlcTag env g tagName tag).out.calls, ∃ r, c = .acquire r := by
  have hensure : ∀ c ∈ (ensurePlcTag env g tagName tag).out.calls, ∃ r, c = .acquire r := by
    unfold ensurePlcTag initPlcTag
    split
    · generalize (if g.protocol = .s7 then env.s7TagCreate g.gateway tagName
        else env.plcTagCreate (plcTagPath g tagName tag)) = tagPointer
      simp only
      split
      · exact fun c hc => absurd hc List.not_mem_nil
      · exact fun c hc => ⟨_, List.mem_singleton.mp hc⟩
    · exact fun c hc => absurd hc List.not_mem_nil
  unfold pollPlcTag
  simp only
  split
  · exact hensure
  split
  · split
    · exact hensure
    · exact hensure
  split
  · split
    · exact hensure
    · exact hensure
  · exact hensure

/-- A turn after which the sweep goes on leaves the tag initialised; an S7 tag, if the link of its
PLC is up. -/
theorem pollPlcTag_initializes (env : PlcEnv) (g : TagGroup V) (tagName : CStr) (tag : PlcTag)
    (hgoes : (pollPlcTag env g tagName tag).goes = true)
    (hlink : g.protocol = .s7 → ∀ tagPointer, env.s7TagConnected tagPointer = true) :
    plcTagInitialized g.protocol (pollPlcTag env g tagName tag).entry = true := by
  unfold pollPlcTag at hgoes ⊢
  have hthere := (ensurePlcTag_ensured env g tagName tag).there
  generalize ensurePlcTag env g tagName tag = r at hthere hgoes
  simp only at hgoes ⊢
  cases hfound : r.goes with
  | false =>
    rw [hfound, if_pos (by rfl)] at hgoes
    cases hgoes
  | true =>
    have hthere := hthere hfound
    simp only [hfound, Bool.not_true, Bool.false_eq_true, if_false, if_pos hthere] at hgoes ⊢
    by_cases hs7 : g.protocol = .s7
    · simp only [if_pos hs7, if_pos (hlink hs7 _), plcTagInitialized]
    · simp only [if_neg hs7] at hgoes ⊢
      split
      · simp only [plcTagInitialized, if_neg hs7, hthere, decide_true]
      · rename_i hread
        rw [if_neg hread] at hgoes
        cases hgoes

end OipComms.Backend
