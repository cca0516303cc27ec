import OipComms.Backend.S7Group
import OipComms.S7.Serving

/-!
# What a poll of an S7 group delivers

`process_plc_tag_group` ends with a flush through the first tag of the group, whichever it is: any tag
will do, for one gateway means one PLC. Here that is followed from the calls of `process_write` to the
memory of the controller: after a poll over a link that is up, every value written to any of the
groups of the gateway has arrived, also those that were put off, by whichever group is polled.
-/

namespace OipComms.Backend

open Comms (TagType WriteRequest)
open Deferral Run S7

variable {V : Type} {σ : Type}

/-! ## The loop of a poll, once more -/

/-- A turn leaves of the library what creating the tag leaves of it. -/
theorem turn_lib (net : Net σ) (h : S7Host V σ) (name tagName : CStr) (tag : PlcTag) :
    (h.turn net name tagName tag).2.lib =
      (ensureS7Tag net h.lib (h.group name).gateway tagName tag).2 := by
  unfold S7Host.turn
  generalize ensureS7Tag net h.lib (h.group name).gateway tagName tag = r
  obtain ⟨ret, lib⟩ := r
  cases ret with
  | error e => rfl
  | ok tag =>
    simp only
    split
    · rfl
    split
    · rfl
    · rfl

/-- A turn after which the loop goes on has stored the tag with a handle. -/
theorem turn_goes {net : Net σ} {h h' : S7Host V σ} {name tagName : CStr} {tag : PlcTag}
    (hturn : h.turn net name tagName tag = (true, h')) :
    ∃ tag', 0 ≤ tag'.tagPointer ∧
      (h'.group name).plcTags = (h.group name).plcTags.insert tagName tag' := by
  have hstored : ∀ (lib : S7State σ) (tag' : PlcTag) (counted : Nat),
      ((({ h with lib := lib } : S7Host V σ).withGroup name
        ((h.group name).putTag tagName tag' counted)).group name).plcTags =
        (h.group name).plcTags.insert tagName tag' := by
    intro lib tag' counted
    rw [S7Host.group, S7Host.withGroup, Std.ExtTreeMap.getElem?_insert_self]
    rfl
  unfold S7Host.turn at hturn
  generalize ensureS7Tag net h.lib (h.group name).gateway tagName tag = r at hturn
  obtain ⟨ret, lib⟩ := r
  cases ret with
  | error e => cases hturn
  | ok tag =>
    simp only at hturn
    split at hturn
    · cases hturn
    rename_i hpointer
    split at hturn
    · obtain ⟨-, rfl⟩ := Prod.mk.inj hturn
      exact ⟨{ tag with dirty := false, initialized := true }, Int.not_lt.mp hpointer,
        hstored lib _ _⟩
    · obtain ⟨-, rfl⟩ := Prod.mk.inj hturn
      exact ⟨tag, Int.not_lt.mp hpointer, hstored lib _ _⟩

variable {gateway : CStr} {tags : List S7Tag} {h : S7Host V Controller} {m₀ : Memory}
  {issued : List (Issued Write)} {plc : S7Plc Controller}

/-- A turn on a tag whose name is accepted goes on, and the account of the writes with it. -/
theorem turn_serving (hsound : h.Sound gateway tags) (hserving : Serving m₀ issued h.lib plc)
    {name tagName : CStr} {tag : PlcTag} {entries : List (CStr × PlcTag)}
    (hahead : S7Host.Sound.Ahead name ((tagName, tag) :: entries) h)
    (hcounts : h.lib.tagIdCounter + 1 < 16777216) :
    ∃ plc', Serving m₀ issued (h.turn Controller.net name tagName tag).2.lib plc' ∧
      plc'.state = plc.state ∧ plc'.sock = plc.sock := by
  rw [turn_lib, ensureS7Tag]
  split
  · have hhost : (h.group name).gateway = plc.plcHostName := by
      rw [(hsound.group hahead.there).2]
      rcases hsound.lib.plcs with ⟨hnil, -⟩ | ⟨plc', hone, hhost, -⟩
      · rw [hserving.plcs] at hnil
        cases hnil
      · rw [hserving.plcs] at hone
        obtain ⟨rfl, -⟩ := List.cons.inj hone
        exact hhost.symm
    rw [hhost]
    exact hserving.create hcounts
  · exact ⟨plc, hserving, rfl, rfl⟩

theorem turn_accepted (hsound : h.Sound gateway tags) (net : Net Controller) {name tagName : CStr}
    {tag : PlcTag} {entries : List (CStr × PlcTag)}
    (hahead : S7Host.Sound.Ahead name ((tagName, tag) :: entries) h)
    (hcounts : h.lib.tagIdCounter + 1 < 16777216)
    (hname : 0 ≤ tag.tagPointer ∨ accepts tagName = true) :
    (h.turn net name tagName tag).1 = true := by
  obtain ⟨ret, lib, hensure, -, hcases⟩ := hsound.ensured net hahead.there hahead.handle hcounts
  rw [S7Host.turn, (hsound.group hahead.there).2, hensure]
  rcases hcases with ⟨tag₁, tags', rfl, hpointer, -⟩ | ⟨hno, hnone, -⟩
  · simp only [if_neg (Int.not_lt.mpr hpointer)]
    split
    · rfl
    · rfl
  · rcases hname with hpointer | hyes
    · rw [PlcTag.handle, if_pos hpointer] at hnone
      cases hnone
    · rw [hyes] at hno
      cases hno

/-- The loop over tags whose names are accepted comes to its end; then each tag it visited has a
handle, and the link is as it was. -/
theorem turns_serving {entries : List (CStr × PlcTag)} (hsound : h.Sound gateway tags)
    (hserving : Serving m₀ issued h.lib plc) {name : CStr}
    (hahead : S7Host.Sound.Ahead name entries h)
    (hcounts : h.lib.tagIdCounter + entries.length < 16777216)
    (hnames : ∀ x ∈ entries, 0 ≤ x.2.tagPointer ∨ accepts x.1 = true)
    (hrest : ∀ (tagName : CStr) (tag : PlcTag), (h.group name).plcTags[tagName]? = some tag →
      tagName ∈ entries.map Prod.fst ∨ 0 ≤ tag.tagPointer) :
    ∃ h' tags' plc', h.turns Controller.net name entries = (true, h') ∧ h'.Sound gateway tags' ∧
      Serving m₀ issued h'.lib plc' ∧ plc'.state = plc.state ∧ plc'.sock = plc.sock ∧
      (∀ (tagName : CStr) (tag : PlcTag), (h'.group name).plcTags[tagName]? = some tag →
        0 ≤ tag.tagPointer) ∧
      ∀ tagName ∈ (h.group name).plcTags, tagName ∈ (h'.group name).plcTags := by
  induction entries generalizing h tags plc with
  | nil =>
    refine ⟨h, tags, plc, rfl, hsound, hserving, rfl, rfl, fun tagName tag hget => ?_, fun _ hk => hk⟩
    rcases hrest tagName tag hget with hmem | hpointer
    · cases hmem
    · exact hpointer
  | cons x entries ih =>
    obtain ⟨tagName, tag⟩ := x
    rw [List.length_cons] at hcounts
    obtain ⟨⟨tags', hsound'⟩, hcounter, hahead'⟩ := hsound.turn Controller.net hahead (by omega)
    obtain ⟨plc', hserving', hstate, hsock⟩ := turn_serving hsound hserving hahead (by omega)
    have hgoes := turn_accepted hsound Controller.net hahead (by omega) (hnames _ List.mem_cons_self)
    rw [S7Host.turns]
    generalize hturn : h.turn Controller.net name tagName tag = r at *
    obtain ⟨goes, h'⟩ := r
    obtain rfl : goes = true := hgoes
    obtain ⟨tag', hpointer, hstored⟩ := turn_goes hturn
    simp only at hcounter hsound' hahead' hserving'
    have hrest' : ∀ (tagName' : CStr) (tag'' : PlcTag), (h'.group name).plcTags[tagName']? = some tag'' →
        tagName' ∈ entries.map Prod.fst ∨ 0 ≤ tag''.tagPointer := by
      intro tagName' tag'' hget
      rw [hstored] at hget
      rcases (Sweep.getElem?_insert_iff _ _ _ _ _).mp hget with ⟨-, rfl⟩ | ⟨hne, hget⟩
      · exact .inr hpointer
      · rcases hrest tagName' tag'' hget with hmem | hpointer'
        · exact .inl ((List.mem_cons.mp hmem).resolve_left hne)
        · exact .inr hpointer'
    obtain ⟨h'', tags'', plc'', hturns, hsound'', hserving'', hstate', hsock', hall, hkeys⟩ :=
      ih hsound' hserving' (hahead' trivial) (by omega)
        (fun x hx => hnames x (List.mem_cons_of_mem _ hx)) hrest'
    refine ⟨h'', tags'', plc'', hturns, hsound'', hserving'', hstate'.trans hstate,
      hsock'.trans hsock, hall, fun k hk => hkeys k ?_⟩
    rw [hstored]
    exact Std.ExtTreeMap.mem_insert.mpr (.inr hk)

/-- The account goes on even if the loop is given up. -/
theorem turns_keep {entries : List (CStr × PlcTag)} (hsound : h.Sound gateway tags)
    (hserving : Serving m₀ issued h.lib plc) {name : CStr}
    (hahead : S7Host.Sound.Ahead name entries h)
    (hcounts : h.lib.tagIdCounter + entries.length < 16777216) :
    (∃ tags', (h.turns Controller.net name entries).2.Sound gateway tags') ∧
      ∃ plc', Serving m₀ issued (h.turns Controller.net name entries).2.lib plc' := by
  induction entries generalizing h tags plc with
  | nil => exact ⟨⟨tags, hsound⟩, plc, hserving⟩
  | cons x entries ih =>
    obtain ⟨tagName, tag⟩ := x
    rw [List.length_cons] at hcounts
    obtain ⟨⟨tags', hsound'⟩, hcounter, hahead'⟩ := hsound.turn Controller.net hahead (by omega)
    obtain ⟨plc', hserving', -, -⟩ := turn_serving hsound hserving hahead (by omega)
    rw [S7Host.turns]
    generalize h.turn Controller.net name tagName tag = r at *
    obtain ⟨goes, h'⟩ := r
    cases goes with
    | true => exact ih hsound' hserving' (hahead' rfl) (by simp only at hcounter; omega)
    | false => exact ⟨⟨tags', hsound'⟩, plc', hserving'⟩

/-- The connection answers to the handle of a tag. -/
theorem answers (hsound : h.Sound gateway tags) (hserving : Serving m₀ issued h.lib plc)
    {name tagName : CStr} {p : Int} (hp : h.handle name tagName = some p) :
    hasPlcId p plc = true ∧ ∃ id < h.lib.tagIdCounter, p = 16777216 + (id : Int) := by
  obtain ⟨tag, htag, rfl, -⟩ := hsound.leads hp
  have hlt := hsound.lib.fresh tag htag
  have hid : plc.identifier = 1 := by
    rcases hsound.lib.plcs with ⟨hnil, -⟩ | ⟨plc', hone, -, hid, -⟩
    · rw [hserving.plcs] at hnil
      cases hnil
    · rw [hserving.plcs] at hone
      obtain ⟨rfl, -⟩ := List.cons.inj hone
      exact hid
  refine ⟨?_, tag.identifier, hlt, rfl⟩
  rw [hasPlcId_handle (Nat.lt_trans hlt hsound.lib.counter)]
  exact decide_eq_true hid

theorem poll_serving (hsound : h.Sound gateway tags) (hserving : Serving m₀ issued h.lib plc)
    {name : CStr} (hname : h.groups.contains name = true)
    (hcounts : h.lib.tagIdCounter + (h.group name).plcTags.size < 16777216) :
    ∃ plc', Serving m₀ issued (h.poll Controller.net name).lib plc' := by
  rw [S7Host.poll]
  split
  · exact ⟨plc, hserving⟩
  rw [← Std.ExtTreeMap.length_toList] at hcounts
  obtain ⟨⟨tags', hsound'⟩, plc', hserving'⟩ :=
    turns_keep hsound hserving (S7Host.Sound.ahead_toList hname) hcounts
  generalize h.turns Controller.net name (h.group name).plcTags.toList = r at *
  obtain ⟨ended, h'⟩ := r
  cases ended with
  | false => exact ⟨plc', hserving'⟩
  | true =>
    simp only
    split
    · exact ⟨plc', hserving'⟩
    · rename_i tagName tag hhead
      obtain ⟨plc'', hserving'', -⟩ := hserving'.flush tag.tagPointer
      exact ⟨plc'', hserving''⟩

/-- A poll that gets to its flush: the group is there and has tags, each with a handle or a name that
is accepted, and no error. -/
structure S7Host.Pollable (h : S7Host V Controller) (name : CStr) : Prop where
  running : h.thrown = false
  there : h.groups.contains name = true
  noError : (h.group name).hasError = false
  tagged : ∃ tagName, tagName ∈ (h.group name).plcTags
  names : ∀ (tagName : CStr) (tag : PlcTag), (h.group name).plcTags[tagName]? = some tag →
    0 ≤ tag.tagPointer ∨ accepts tagName = true
  counts : h.lib.tagIdCounter + (h.group name).plcTags.size < 16777216

theorem poll_settles (hsound : h.Sound gateway tags) (hserving : Serving m₀ issued h.lib plc)
    {name : CStr} (hpoll : h.Pollable name) (hstate : plc.state = 2)
    (hup : ∀ l ∈ plc.sock.links, l.isUp = true) :
    ∃ plc', Serving m₀ issued (h.poll Controller.net name).lib plc' ∧
      ∀ tag ∈ plc'.tags, tag.writePending = false := by
  have hcounts := hpoll.counts
  rw [← Std.ExtTreeMap.length_toList] at hcounts
  obtain ⟨h', tags', plc', hturns, hsound', hserving', hstate', hsock, hall, hkeys⟩ :=
    turns_serving hsound hserving (S7Host.Sound.ahead_toList hpoll.there) hcounts
      (fun x hx => hpoll.names x.1 x.2 (Std.ExtTreeMap.mem_toList_iff_getElem?_eq_some.mp hx))
      (fun tagName tag hget => .inl (List.mem_map_of_mem (f := Prod.fst)
        (Std.ExtTreeMap.mem_toList_iff_getElem?_eq_some.mpr hget)))
  rw [S7Host.poll, if_neg (by rw [hpoll.noError]; exact Bool.false_ne_true), hturns]
  simp only
  cases hhead : (h'.group name).plcTags.toList.head? with
  | none =>
    obtain ⟨tagName, hmem⟩ := hpoll.tagged
    have hnil := List.head?_eq_none_iff.mp hhead
    obtain ⟨tag, hget⟩ := Option.isSome_iff_exists.mp
      (Std.ExtTreeMap.mem_iff_isSome_getElem?.mp (hkeys tagName hmem))
    have hin := Std.ExtTreeMap.mem_toList_iff_getElem?_eq_some.mpr hget
    rw [hnil] at hin
    cases hin
  | some x =>
    obtain ⟨tagName, tag⟩ := x
    have hget := Std.ExtTreeMap.mem_toList_iff_getElem?_eq_some.mp (List.mem_of_head? hhead)
    have hp : h'.handle name tagName = some tag.tagPointer := by
      rw [handle_group, hget]
      exact if_pos (hall tagName tag hget)
    obtain ⟨hhas, -⟩ := answers hsound' hserving' hp
    obtain ⟨plc'', hserving'', hsettled⟩ := hserving'.flush tag.tagPointer
    refine ⟨plc'', hserving'', hsettled hhas (hstate'.trans hstate) ?_⟩
    rw [hsock]
    exact hup

/-! ## Histories of writes -/

variable [Rtde.GodotVariant V]

/-- The writes that were issued: those of `process_write` to a tag that has a handle. A write is
prompt if the status says so. -/
def noteWrite (h : S7Host V Controller) (op : S7Op V Controller) (issued : List (Issued Write)) :
    List (Issued Write) :=
  match op with
  | .write float32 w =>
    match h.handle w.tagGroupName w.tagName, s7Value float32 w.instruction w.value with
    | some handle, some value =>
      if h.thrown then issued
      else
        issued ++ [⟨⟨handle, value⟩, issued.length, (h.write Controller.net float32 w).1 = 0⟩]
    | _, _ => issued
  | _ => issued

/-- What happens while the simulation runs: there is no clean-up, a request is one that `write_*`
makes, and the polling thread leaves the controller's memory as it is. -/
def S7Host.Serves (h : S7Host V Controller) (op : S7Op V Controller) : Prop :=
  h.Counts op ∧
    match op with
    | .cleanup _ => False
    | .write _ w => (instructionType w.instruction).isSome
    | .polled i seen => ∀ p ∈ h.lib.s7Plcs[i]?, seen.sock.memory = p.sock.memory
    | .registerTag _ _ _ | .poll _ => True

/-- What is said of the host between two operations. -/
def Accounted (gateway : CStr) (m₀ : Memory) (x : S7Host V Controller × List (Issued Write)) :
    Prop :=
  (∃ tags, x.1.Sound gateway tags) ∧ ∃ plc, Serving m₀ x.2 x.1.lib plc

/-- A write to a tag without a handle does not get to the library. -/
theorem write_none {w : WriteRequest V} (hnone : h.handle w.tagGroupName w.tagName = none)
    (float32 : UInt64) : (h.write Controller.net float32 w).2.lib = h.lib := by
  have hentry := (handle_getD h w.tagGroupName w.tagName).trans hnone
  rw [S7Host.write]
  generalize ((h.group w.tagGroupName).plcTags[w.tagName]?).getD {} = tag at hentry
  rw [PlcTag.handle] at hentry
  split at hentry
  · cases hentry
  · rename_i hpointer
    simp only [if_neg hpointer]
    rfl

/-- A write to a tag with a handle sets the value and sends it. -/
theorem write_some {w : WriteRequest V} {p : Int} {float32 value : UInt64}
    (hp : h.handle w.tagGroupName w.tagName = some p)
    (hvalue : s7Value float32 w.instruction w.value = some value) :
    ((h.write Controller.net float32 w).1, (h.write Controller.net float32 w).2.lib) =
      s7TagWrite Controller.net (s7WriteTag h.lib p value).2 p := by
  have hentry := (handle_getD h w.tagGroupName w.tagName).trans hp
  rw [S7Host.write]
  generalize ((h.group w.tagGroupName).plcTags[w.tagName]?).getD {} = tag at hentry
  rw [PlcTag.handle] at hentry
  split at hentry
  · rename_i hpointer
    obtain rfl := Option.some.inj hentry
    simp only [if_pos hpointer, hvalue]
    rfl
  · cases hentry

/-- An instruction of `write_*` has a value. -/
theorem s7Value_isSome {w : WriteRequest V} (hw : (instructionType w.instruction).isSome)
    (float32 : UInt64) : ∃ value, s7Value float32 w.instruction w.value = some value := by
  unfold s7Value
  cases hty : instructionType w.instruction with
  | none =>
    rw [hty] at hw
    cases hw
  | some ty => cases ty <;> exact ⟨_, rfl⟩

/-- Every operation goes on with the account of the writes. -/
theorem accounted_step {x : S7Host V Controller × List (Issued Write)}
    (hx : Accounted gateway m₀ x) {op : S7Op V Controller} (hop : x.1.Serves op) :
    Accounted gateway m₀ (watch (S7Host.step Controller.net) noteWrite x op) := by
  obtain ⟨h, issued⟩ := x
  obtain ⟨hsound, plc, hserving⟩ := hx
  obtain ⟨hcounts, hop⟩ := hop
  refine ⟨sound_step Controller.net hsound hcounts, ?_⟩
  obtain ⟨tags, hsound⟩ := hsound
  show ∃ plc', Serving m₀ (noteWrite h op issued) (h.step Controller.net op).lib plc'
  simp only at hserving hsound hop hcounts
  unfold S7Host.step
  cases op with
  | cleanup name => exact hop.elim
  | registerTag name tagName ty =>
    refine ⟨plc, ?_⟩
    split
    · exact hserving
    simp only
    split
    · exact hserving
    · exact hserving
  | poll name =>
    split
    · exact ⟨plc, hserving⟩
    simp only
    split
    · rename_i hname
      exact poll_serving hsound hserving hname hcounts
    · exact ⟨plc, hserving⟩
  | polled i seen =>
    split
    · exact ⟨plc, hserving⟩
    · exact hserving.polled hop
  | write float32 w =>
    obtain ⟨value, hvalue⟩ := s7Value_isSome hop float32
    cases hp : h.handle w.tagGroupName w.tagName with
    | none =>
      refine ⟨plc, ?_⟩
      simp only [noteWrite, hp]
      split
      · exact hserving
      split
      · rw [write_none hp]
        exact hserving
      · exact hserving
    | some p =>
      simp only [noteWrite, hp, hvalue]
      split
      · exact ⟨plc, hserving⟩
      have hname : h.groups.contains w.tagGroupName = true := by
        rw [← Std.ExtTreeMap.mem_iff_contains, Std.ExtTreeMap.mem_iff_isSome_getElem?]
        unfold S7Host.handle at hp
        obtain ⟨g, hg, -⟩ := Option.bind_eq_some_iff.mp hp
        rw [hg]
        rfl
      obtain ⟨hhas, id, hid, hhandle⟩ := answers hsound hserving hp
      obtain ⟨ret, lib, plc', hwrite, -, hserving'⟩ := hserving.write hhas hid hhandle value
      obtain ⟨hret, hlib⟩ := Prod.mk.inj ((write_some hp hvalue).trans hwrite)
      rw [if_pos hname, hlib, hret]
      exact ⟨plc', hserving'⟩

/-- The host after a history, with the writes issued in it. -/
def written (h : S7Host V Controller) (ops : List (S7Op V Controller)) :
    S7Host V Controller × List (Issued Write) :=
  run (watch (S7Host.step Controller.net) noteWrite) (h, []) ops

/-- Once there is a connection, and from then on: whatever was polled and written in the groups of
the gateway and whenever the link was down, a poll of any of them over a link that is up leaves no
write pending, and the memory is what all the writes make of it, in an order in which only a deferred
write was overtaken, and only by a write to another tag. -/
theorem s7_poll_delivers {h₀ : S7Host V Controller} (hfresh : h₀.Fresh gateway)
    {pre ops : List (S7Op V Controller)}
    (hpre : Meets (S7Host.step Controller.net) S7Host.Counts h₀ pre) {plc₀ : S7Plc Controller}
    (hplc₀ : (run (S7Host.step Controller.net) h₀ pre).lib.s7Plcs = [plc₀]) (hidle : plc₀.Idle)
    (hops : Meets (S7Host.step Controller.net) S7Host.Serves
      (run (S7Host.step Controller.net) h₀ pre) ops)
    {last : S7Host V Controller}
    (hlast : written (run (S7Host.step Controller.net) h₀ pre) ops = (last, issued))
    {name : CStr} (hpoll : last.Pollable name) (hplc : last.lib.s7Plcs = [plc])
    (hstate : plc.state = 2) (hup : ∀ l ∈ plc.sock.links, l.isUp = true) :
    ∃ flushed, (last.step Controller.net (.poll name)).lib.s7Plcs = [flushed] ∧
      (∀ tag ∈ flushed.tags, tag.writePending = false) ∧
      (∃ order, order.Perm issued ∧ order.Pairwise (MayPrecede Write.slot) ∧
        flushed.sock.memory = replay (Write.apply flushed.tags) order plc₀.sock.memory) ∧
      ∀ a k,
        (∀ x ∈ issued, ∀ y ∈ issued, x.op.Covers flushed.tags (a, k) →
          y.op.Covers flushed.tags (a, k) → x.number < y.number →
          x.prompt = true ∨ x.op.slot = y.op.slot) →
        flushed.sock.memory a k =
          replay (Write.apply flushed.tags) issued plc₀.sock.memory a k := by
  have hstart : Accounted gateway plc₀.sock.memory (run (S7Host.step Controller.net) h₀ pre, []) :=
    ⟨(along_of_meets (S7Host.step Controller.net) (J := fun h => ∃ tags, h.Sound gateway tags)
        (fun _ _ hsound hcounts => sound_step Controller.net hsound hcounts) ⟨[], hfresh.sound⟩
        hpre).last,
      plc₀, hplc₀, ⟨[], [], hidle.account _, Ledger.start, fun _ hw => nomatch hw⟩,
      fun _ hw => nomatch hw⟩
  have hend := (along_of_meets (watch (S7Host.step Controller.net) noteWrite)
    (J := Accounted gateway plc₀.sock.memory) (fun _ _ hx hop => accounted_step hx hop) hstart
    ((meets_watch (S7Host.step Controller.net) noteWrite S7Host.Serves _ ops).mpr hops)).last
  rw [written] at hlast
  rw [hlast] at hend
  obtain ⟨⟨tags, hsound⟩, plc', hserving⟩ := hend
  obtain rfl : plc = plc' := List.singleton_injective (hplc.symm.trans hserving.plcs)
  obtain ⟨flushed, hflushed, hsettled⟩ := poll_settles hsound hserving hpoll hstate hup
  have hstep : last.step Controller.net (.poll name) = last.poll Controller.net name := by
    unfold S7Host.step
    rw [if_neg (by rw [hpoll.running]; exact Bool.false_ne_true)]
    exact if_pos hpoll.there
  rw [hstep]
  obtain ⟨horder, hplaces⟩ := hflushed.settled hsettled
  exact ⟨flushed, hflushed.plcs, hsettled, horder, hplaces⟩

/-- A tag in each of two groups, the first of them polled. -/
def connecting : S7Host Bool Controller :=
  run (S7Host.step Controller.net) twoGroups
    [.registerTag ['g'] ['M', 'B', '0'] .uint8, .registerTag ['k'] ['Q', 'B', '4'] .uint8,
      .poll ['g']]

/-- A write that is put off; then the link comes up. -/
def puttingOff : List (S7Op Bool Controller) :=
  [.write 0 ⟨7, ['g'], ['M', 'B', '0'], true⟩,
    .polled 0 { sock := Controller.net.invalidSocket, state := 2, identifier := 0, plcHostName := [] }]

/-- The poll of the other group delivers it. -/
theorem s7_poll_delivers_other_group :
    ∃ flushed, ((written connecting puttingOff).1.step Controller.net
        (.poll ['k'])).lib.s7Plcs = [flushed] ∧
      ∀ tag ∈ flushed.tags, tag.writePending = false := by
  have hfirst : connecting.lib.s7Plcs.length = 1 ∧ ∀ plc ∈ connecting.lib.s7Plcs,
      ∀ tag ∈ plc.tags, tag.Sized ∧ tag.mem ≠ none ∧ tag.writePending = false := by
    decide +kernel
  have hmemory : ((connecting.step Controller.net (.write 0 ⟨7, ['g'], ['M', 'B', '0'],
      true⟩)).lib.s7Plcs[0]?.map fun p => p.sock.memory) = some fun _ _ => false := rfl
  have hlast : (written connecting puttingOff).1.lib.s7Plcs.length = 1 ∧
      ∀ plc ∈ (written connecting puttingOff).1.lib.s7Plcs,
        plc.state = 2 ∧ plc.sock.links = [] := by
    decide +kernel
  have hgroup : (written connecting puttingOff).1.thrown = false ∧
      (written connecting puttingOff).1.groups.contains ['k'] = true ∧
      ((written connecting puttingOff).1.group ['k']).hasError = false ∧
      ['Q', 'B', '4'] ∈ ((written connecting puttingOff).1.group ['k']).plcTags ∧
      (∀ x ∈ ((written connecting puttingOff).1.group ['k']).plcTags.toList,
        0 ≤ x.2.tagPointer ∨ accepts x.1 = true) ∧
      (written connecting puttingOff).1.Counts (.poll ['k']) := by
    decide +kernel
  obtain ⟨plc₀, hplc₀⟩ := List.length_eq_one_iff.mp hfirst.1
  obtain ⟨plc, hplc⟩ := List.length_eq_one_iff.mp hlast.1
  have hidle : plc₀.Idle := hfirst.2 plc₀ (by rw [hplc₀]; exact List.mem_cons_self)
  obtain ⟨hstate, hlinks⟩ := hlast.2 plc (by rw [hplc]; exact List.mem_cons_self)
  obtain ⟨hrunning, hthere, herror, htag, hnames, hcounts⟩ := hgroup
  have hpoll : (written connecting puttingOff).1.Pollable ['k'] :=
    ⟨hrunning, hthere, herror, ⟨_, htag⟩, fun tagName tag hget =>
      hnames (tagName, tag) (Std.ExtTreeMap.mem_toList_iff_getElem?_eq_some.mpr hget), hcounts⟩
  have hops : Meets (S7Host.step Controller.net) S7Host.Serves connecting puttingOff := by
    refine ⟨⟨trivial, rfl⟩, ⟨trivial, fun p hp => ?_⟩, trivial⟩
    have hp' := congrArg (Option.map fun p => p.sock.memory) hp
    exact Option.some.inj (hmemory.symm.trans hp')
  obtain ⟨flushed, hflushed, hsettled, -⟩ := s7_poll_delivers twoGroups_fresh
    (show Meets _ _ _ [.registerTag ['g'] ['M', 'B', '0'] .uint8,
      .registerTag ['k'] ['Q', 'B', '4'] .uint8, .poll ['g']] by decide +kernel)
    hplc₀ hidle hops rfl hpoll hplc hstate (by rw [hlinks]; exact fun l hl => nomatch hl)
  exact ⟨flushed, hflushed, hsettled⟩

end OipComms.Backend
