import OipComms.Backend.History

/-!
# What an ADS tag is read as

A tag keeps the bytes of its last read, and `read_*` takes them for a value of its type if they are
as many. In between, a tag has bytes that nobody answered with: the zeros of a tag just looked up,
and what a short read leaves. None of these is ever taken for a value: a tag that is looked up is
read in the same poll, and a read that fails sets `has_error`, which only the clean-up takes back,
together with the tags.

So what is read is what the device answered with last, since it was made (`ads_reads_last`).
-/

namespace OipComms.Backend

open Run Sweep
open Comms (TagType)

variable {V : Type}

/-- `read_*` of a type of `size` bytes, on an ADS group: the bytes of what it returns. -/
def TagGroup.adsRead (enableComms simRunning : Bool) (g : TagGroup V) (tagName : CStr)
    (size : Nat) : List UInt8 :=
  if enableComms && simRunning && g.has tagName then
    if g.hasError then List.replicate size 0
    else
      match g.adsImpl with
      | none => List.replicate size 0
      | some impl =>
        match impl.tags[tagName]? with
        | none => List.replicate size 0
        | some tag =>
          if tag.initialized then
            if tag.value.length ≠ size then List.replicate size 0 else tag.value
          else List.replicate size 0
  else List.replicate size 0

/-! ## The history -/

/-- What the device answers in a tag's turn, if it answers in full. -/
def adsAnswer (env : AdsEnv) (tagName : CStr) (tag : AdsTagEntry) : Option (List UInt8) :=
  let tag := if tag.initialized then tag else (initAdsTag env tagName tag).2
  (tag.handle.bind fun handle => env.read handle tag.size).filter fun bytes =>
    bytes.length = tag.size

/-- The last answers of a device, after a poll asked it for tags. -/
def noteAnswers (env : AdsEnv) (tags : Std.ExtTreeMap CStr AdsTagEntry)
    (last : CStr → Option (List UInt8)) (tagName : CStr) : Option (List UInt8) :=
  if tagName ∈ (visited (pollAdsTag (V := V) env) tags.toList).map Prod.fst then
    (tags[tagName]?.bind (adsAnswer env tagName)).or (last tagName)
  else last tagName

/-- The last answers to a group, after a poll. A device that is made has not been asked. -/
def noteAdsPoll (env : AdsEnv) (g : TagGroup V) (last : CStr → Option (List UInt8)) :
    CStr → Option (List UInt8) :=
  if g.hasError then last
  else if g.adsDeviceConnected then noteAnswers (V := V) env g.adsTags last
  else if !env.dllAvailable then last
  else if g.adsReachable env then
    noteAnswers (V := V) env (g.adsTags.map fun _ tag => tag.reset) fun _ => none
  else fun _ => none

/-- What the device of each group answered with last, for each of its tags. -/
def adsHistory : History V (CStr → Option (List UInt8)) where
  fresh := fun _ => none
  note g _ op last :=
    match op with
    | .poll env => noteAdsPoll env.ads g last
    | .cleanup => fun _ => none
    | _ => last

/-- What is read where these bytes were answered with: they, or zeros. -/
def readAs (size : Nat) (last : Option (List UInt8)) : List UInt8 :=
  (last.filter fun bytes => bytes.length = size).getD (List.replicate size 0)

/-! ## The tags of a group -/

/-- A tag, by what was answered last: it is initialised if anything was, and it has what was. -/
structure AdsTagEntry.Shows (tag : AdsTagEntry) (last : Option (List UInt8)) : Prop where
  answered : tag.initialized = true → last = some tag.value ∧ tag.value.length = tag.size
  silent : tag.initialized = false → last = none

/-- The tags show what was answered, or the group has an error; and only for tags there are was
anything answered. -/
structure ShowsAnswers (g : TagGroup V) (last : CStr → Option (List UInt8)) : Prop where
  tags : g.hasError = false → ∀ (tagName : CStr) (tag : AdsTagEntry),
    g.adsTags[tagName]? = some tag → tag.Shows (last tagName)
  absent : ∀ tagName : CStr, g.adsTags[tagName]? = none → last tagName = none

/-- A read that does not end the sweep replaces all the bytes of a tag, if it has a handle. -/
theorem readAdsTag_shows (env : AdsEnv) {tag : AdsTagEntry} (counted : Nat)
    {last : Option (List UInt8)} (hinitialized : tag.initialized = true)
    (hsize : tag.value.length = tag.size) (hkept : tag.handle = none → last = some tag.value)
    (hgoes : (readAdsTag env tag counted : Swept AdsTagEntry (Effect V)).goes = true) :
    (readAdsTag env tag counted : Swept AdsTagEntry (Effect V)).entry.Shows
      (((tag.handle.bind fun handle => env.read handle tag.size).filter fun bytes =>
        bytes.length = tag.size).or last) := by
  have hnot : tag.initialized ≠ false := fun hno =>
    absurd (hno.symm.trans hinitialized) Bool.false_ne_true
  unfold readAdsTag at hgoes ⊢
  cases hhandle : tag.handle with
  | none => exact ⟨fun _ => ⟨hkept hhandle, hsize⟩, fun hno => absurd hno hnot⟩
  | some handle =>
    simp only [hhandle] at hgoes ⊢
    cases hbytes : env.read handle tag.size with
    | none =>
      rw [hbytes] at hgoes
      cases hgoes
    | some bytes =>
      simp only [hbytes] at hgoes ⊢
      by_cases hfull : bytes.length = tag.size
      · have hvalue : bytes ++ tag.value.drop bytes.length = bytes := by
          rw [List.drop_of_length_le (hsize.trans hfull.symm).le, List.append_nil]
        rw [if_pos hfull, hvalue, Option.bind_some, hbytes, Option.filter_some,
          if_pos (decide_eq_true hfull)]
        exact ⟨fun _ => ⟨rfl, hfull⟩, fun hno => absurd hno hnot⟩
      · rw [if_neg hfull] at hgoes
        cases hgoes

/-- A turn that does not end the sweep leaves the tag with the answer. -/
theorem pollAdsTag_shows (env : AdsEnv) (tagName : CStr) {tag : AdsTagEntry}
    {last : Option (List UInt8)} (h : tag.Shows last)
    (hgoes : (pollAdsTag env tagName tag : Swept AdsTagEntry (Effect V)).goes = true) :
    (pollAdsTag env tagName tag : Swept AdsTagEntry (Effect V)).entry.Shows
      ((adsAnswer env tagName tag).or last) := by
  unfold pollAdsTag at hgoes ⊢
  unfold adsAnswer
  cases hinitialized : tag.initialized with
  | true =>
    obtain ⟨hlast, hsize⟩ := h.answered hinitialized
    rw [hinitialized, if_pos rfl] at hgoes
    rw [if_pos rfl]
    exact readAdsTag_shows env 0 hinitialized hsize (fun _ => hlast) hgoes
  | false =>
    rw [hinitialized, if_neg Bool.false_ne_true] at hgoes
    rw [if_neg Bool.false_ne_true]
    unfold initAdsTag at hgoes ⊢
    cases hsymbol : env.symbolSize tagName with
    | none =>
      rw [hsymbol] at hgoes
      cases hgoes
    | some size =>
      simp only [hsymbol] at hgoes ⊢
      cases hhandle : env.getHandle tagName with
      | none =>
        rw [hhandle] at hgoes
        cases hgoes
      | some handle =>
        simp only [hhandle] at hgoes ⊢
        exact readAdsTag_shows env 1 rfl (List.length_replicate ..)
          (fun hno => absurd hno (Option.some_ne_none handle)) hgoes

/-- The tags after a poll by a device. -/
theorem shows_pollAdsTags {v : Visit V} {impl : AdsTagGroupImpl} (env : AdsEnv)
    {last : CStr → Option (List UInt8)}
    (htags : ∀ (tagName : CStr) (tag : AdsTagEntry), impl.tags[tagName]? = some tag →
      tag.Shows (last tagName))
    (habsent : ∀ tagName : CStr, impl.tags[tagName]? = none → last tagName = none) :
    ShowsAnswers (v.pollAdsTags env impl).group (noteAnswers (V := V) env impl.tags last) := by
  have hentries : (v.pollAdsTags env impl).group.adsTags =
      (sweep (pollAdsTag (V := V) env) impl.tags).entries := rfl
  refine ⟨fun hok tagName tag' hget => ?_, fun tagName hget => ?_⟩
  · have hfailed : (sweep (pollAdsTag (V := V) env) impl.tags).outs.any Effect.failed = false :=
      (Bool.or_eq_false_iff.mp hok).2
    have hcompletes := completes_of_no_end (pollAdsTag (V := V) env) (fun k a hgoes => by
      rw [(pollAdsTag_turn env k a).ends, hgoes]
      rfl) hfailed
    rw [hentries] at hget
    obtain ⟨tag, hwas, rfl, hgoes⟩ := getElem?_of_completes _ hcompletes hget
    have hmem : tagName ∈ (visited (pollAdsTag (V := V) env) impl.tags.toList).map Prod.fst := by
      rw [visited_of_all _ hcompletes]
      exact List.mem_map_of_mem (f := Prod.fst)
        (Std.ExtTreeMap.mem_toList_iff_getElem?_eq_some.mpr hwas)
    rw [noteAnswers, if_pos hmem, hwas, Option.bind_some]
    exact pollAdsTag_shows env tagName (htags tagName tag hwas) hgoes
  · have hnone : impl.tags[tagName]? = none := by
      rw [hentries] at hget
      rw [sweep, Std.ExtTreeMap.getElem?_map, Option.map_eq_none_iff] at hget
      exact hget
    rw [noteAnswers]
    split
    · rw [hnone, Option.bind_none, Option.none_or]
      exact habsent tagName hnone
    · exact habsent tagName hnone

/-- A poll, by the device that is there or one that is made. -/
theorem processAdsTagGroup_eq (env : AdsEnv) (v : Visit V) :
    v.processAdsTagGroup env =
      if v.group.adsDeviceConnected then
        match v.group.adsImpl with
        | some impl => v.pollAdsTags env impl
        | none => v
      else if !env.dllAvailable then v
      else
        let ok := v.group.adsReachable env
        let v' := v.ads.2.withGroup { v.ads.2.group with adsImpl := some (v.ads.1.anew ok) }
        if ok then v'.pollAdsTags env (v.ads.1.anew ok) else v' := by
  unfold Visit.processAdsTagGroup
  cases v.group.adsDeviceConnected with
  | true =>
    cases himpl : v.group.adsImpl with
    | none => simp only [if_true, himpl]
    | some impl => simp only [if_true, himpl]
  | false =>
    simp only [Bool.false_eq_true, if_false]
    unfold Visit.initAdsDevice
    cases env.dllAvailable with
    | false =>
      cases himpl : v.group.adsImpl with
      | none => simp only [Bool.not_false, if_true, himpl]
      | some impl => simp only [Bool.not_false, Bool.false_eq_true, if_true, if_false, himpl]
    | true => rfl

/-- A tag of a new device shows nothing. -/
theorem AdsTagEntry.shows_reset (tag : AdsTagEntry) : tag.reset.Shows none :=
  ⟨fun hno => absurd hno Bool.false_ne_true, fun _ => rfl⟩

/-- A poll shows what it was answered. -/
theorem ShowsAnswers.processAdsTagGroup {v : Visit V} {last : CStr → Option (List UInt8)}
    (h : ShowsAnswers v.group last) (hok : v.group.hasError = false) (env : AdsEnv) :
    ShowsAnswers (v.processAdsTagGroup env).group (noteAdsPoll env v.group last) := by
  rw [processAdsTagGroup_eq, noteAdsPoll, if_neg (Bool.eq_false_iff.mp hok)]
  split
  · rename_i hconnected
    obtain ⟨impl, himpl, -⟩ := (Option.any_eq_true _ _).mp hconnected
    have htags : v.group.adsTags = impl.tags := by
      rw [TagGroup.adsTags, himpl]
      rfl
    have hshows := h.tags hok
    have habsent := h.absent
    rw [htags] at hshows habsent ⊢
    simp only [himpl]
    exact shows_pollAdsTags env hshows habsent
  split
  · exact ⟨h.tags, h.absent⟩
  -- what there was of a device is gone
  have hreset : ∀ (ok : Bool) (tagName : CStr) (tag : AdsTagEntry),
      (v.ads.1.anew ok).tags[tagName]? = some tag → tag.Shows none := by
    intro ok tagName tag hget
    simp only [AdsTagGroupImpl.anew, Std.ExtTreeMap.getElem?_map] at hget
    obtain ⟨tag, -, rfl⟩ := Option.map_eq_some_iff.mp hget
    exact tag.shows_reset
  simp only
  cases v.group.adsReachable env with
  | true =>
    rw [if_pos rfl, if_pos rfl, ← v.ads_tags]
    exact shows_pollAdsTags env (hreset true) fun _ _ => rfl
  | false =>
    rw [if_neg Bool.false_ne_true, if_neg Bool.false_ne_true]
    exact ⟨fun _ => hreset false, fun _ _ => rfl⟩

/-! ## Whatever happens to a group -/

/-- Tags that show what was answered, under another group. -/
theorem ShowsAnswers.same {g g' : TagGroup V} {last : CStr → Option (List UInt8)}
    (h : ShowsAnswers g last) (htags : g'.adsTags = g.adsTags)
    (herror : g'.hasError = false → g.hasError = false) : ShowsAnswers g' last :=
  ⟨fun hok => htags ▸ h.tags (herror hok), htags ▸ h.absent⟩

/-- A tag that is registered is not there, and then it is, with nothing known of it. -/
theorem registerTag_ads {v : Visit V} {tagName : CStr} (hnew : v.group.has tagName = false)
    (hprotocol : v.group.protocol = .ads) (ty : TagType) :
    v.group.adsTags[tagName]? = none ∧
      (v.registerTag tagName ty).2.group.adsTags = v.group.adsTags.insert tagName {} ∧
      (v.registerTag tagName ty).2.group.adsDeviceConnected = v.group.adsDeviceConnected ∧
      (v.registerTag tagName ty).2.group.hasError = v.group.hasError := by
  refine ⟨?_, ?_, ?_, ?_⟩
  · simp only [TagGroup.has, hprotocol] at hnew
    rw [TagGroup.adsTags]
    cases himpl : v.group.adsImpl with
    | none => exact Std.ExtTreeMap.getElem?_empty
    | some impl =>
      rw [himpl, Option.any_some, Std.ExtTreeMap.contains_eq_isSome_getElem?] at hnew
      exact Option.not_isSome_iff_eq_none.mp (Bool.eq_false_iff.mp hnew)
  · simp only [Visit.registerTag, hprotocol, ← v.ads_tags]
    rfl
  · simp only [Visit.registerTag, hprotocol]
    exact v.ads_client
  · simp only [Visit.registerTag, hprotocol]
    rcases v.ads_cases with ⟨-, hsame⟩ | ⟨-, hmade⟩
    · simp only [Visit.withGroup, hsame]
    · rw [hmade]
      rfl

/-- A new tag was never asked for. -/
theorem ShowsAnswers.registerTag {v : Visit V} {last : CStr → Option (List UInt8)}
    (h : ShowsAnswers v.group last) {tagName : CStr} (hnew : v.group.has tagName = false)
    (hprotocol : v.group.protocol = .ads) (ty : TagType) :
    ShowsAnswers (v.registerTag tagName ty).2.group last := by
  obtain ⟨hnone, htags, -, herror⟩ := registerTag_ads hnew hprotocol ty
  refine ⟨fun hok name tag hget => ?_, fun name hget => ?_⟩
  · rw [htags] at hget
    rcases (getElem?_insert_iff _ _ _ _ _).mp hget with ⟨rfl, rfl⟩ | ⟨-, hget⟩
    · exact ⟨fun hno => absurd hno Bool.false_ne_true, fun _ => h.absent name hnone⟩
    · exact h.tags (herror ▸ hok) name tag hget
  · rw [htags, Std.ExtTreeMap.getElem?_insert] at hget
    split at hget
    · cases hget
    · exact h.absent name hget

section
variable [Rtde.GodotVariant V]

/-- What happens to a group shows the last answers. -/
theorem ShowsAnswers.after {g : TagGroup V} {last : CStr → Option (List UInt8)}
    (h : ShowsAnswers g last) (hprotocol : g.protocol = .ads) (next : Nat) (op : GroupOp V) :
    ShowsAnswers (g.after next op).group (adsHistory.note g next op last) := by
  have hgroup : ({ group := g, next := next } : Visit V).group = g := rfl
  rw [TagGroup.after]
  generalize ({ group := g, next := next } : Visit V) = v at *
  subst hgroup
  cases op with
  | registerTag tagName ty =>
    show ShowsAnswers (if _ then v else _).group last
    split
    · exact h
    · rename_i hnew
      exact h.registerTag (Bool.eq_false_iff.mpr hnew) hprotocol ty
  | poll env =>
    show ShowsAnswers (v.processTagGroup env).group (noteAdsPoll env.ads v.group last)
    simp only [Visit.processTagGroup, hprotocol]
    split
    · rename_i herror
      rw [noteAdsPoll, if_pos herror]
      exact h
    · rename_i hok
      exact h.processAdsTagGroup (Bool.eq_false_iff.mpr hok) env.ads
  | write env w =>
    simp only [Visit.apply, Visit.processWrite, hprotocol]
    exact h
  | read tagName ty =>
    simp only [Visit.apply, Visit.withGroup]
    rcases readTag_cases v.group tagName ty with hread | hread
    · rw [hread]
      exact h
    · rw [hread]
      exact h.same rfl fun hno => absurd hno.symm Bool.false_ne_true
  | message topic payload =>
    simp only [Visit.apply, Visit.withGroup]
    rcases mqttMessageArrived_cases v.group topic payload with hsame | ⟨_, _, -, -, hnew⟩
    · rw [hsame]
      exact h
    · rw [hnew]
      exact h.same rfl id
  | setSoftPlcProgram source | setSoftPlcWatchEnabled enabled =>
    simp only [Visit.apply, Visit.setSoftPlcProgram, Visit.setSoftPlcWatchEnabled]
    rcases v.softPlc_cases with ⟨-, hsame⟩ | ⟨-, hnew⟩
    · simp only [Visit.withGroup, hsame]
      exact h.same rfl id
    · rw [hnew]
      exact h.same rfl id
  | frame delta startupTimer => exact h.same rfl id
  | cleanup =>
    simp only [Visit.apply, Visit.cleanup, Visit.release, hprotocol]
    refine ⟨fun _ tagName tag hget => ?_, fun _ _ => rfl⟩
    cases Std.ExtTreeMap.getElem?_empty.symm.trans hget

omit [Rtde.GodotVariant V] in
/-- The entry of a tag in the object, if there is one. -/
theorem adsImpl_tags (g : TagGroup V) (tagName : CStr) :
    (g.adsImpl.bind fun impl => impl.tags[tagName]?) = g.adsTags[tagName]? := by
  rw [TagGroup.adsTags]
  cases g.adsImpl with
  | none => exact Std.ExtTreeMap.getElem?_empty.symm
  | some impl => rfl

omit [Rtde.GodotVariant V] in
/-- A read returns what is in the tag if that was answered. -/
theorem ShowsAnswers.adsRead {g : TagGroup V} {last : CStr → Option (List UInt8)}
    (h : ShowsAnswers g last) (hok : g.hasError = false) (hprotocol : g.protocol = .ads)
    (tagName : CStr) (size : Nat) :
    g.adsRead true true tagName size = readAs size (last tagName) := by
  have hhas : g.has tagName = (g.adsTags[tagName]?).isSome := by
    simp only [TagGroup.has, hprotocol]
    rw [← adsImpl_tags]
    cases g.adsImpl with
    | none => rfl
    | some impl => exact Std.ExtTreeMap.contains_eq_isSome_getElem?
  rw [TagGroup.adsRead, hhas, hok]
  cases hget : g.adsTags[tagName]? with
  | none =>
    rw [h.absent tagName hget]
    rfl
  | some tag =>
    have hshows := h.tags hok tagName tag hget
    obtain ⟨impl, himpl, htag⟩ := Option.bind_eq_some_iff.mp ((adsImpl_tags g tagName).trans hget)
    simp only [himpl, htag]
    cases hinitialized : tag.initialized with
    | true =>
      rw [(hshows.answered hinitialized).1, readAs, Option.filter_some]
      by_cases hsize : tag.value.length = size
      · simp [hsize]
      · simp [hsize]
    | false =>
      rw [hshows.silent hinitialized]
      rfl

omit [Rtde.GodotVariant V] in
/-- A read takes what was answered for an error if it is of another size. -/
theorem ShowsAnswers.readTag {g : TagGroup V} {last : CStr → Option (List UInt8)}
    (h : ShowsAnswers g last) (hok : g.hasError = false) (hprotocol : g.protocol = .ads)
    (tagName : CStr) (ty : TagType) :
    (g.readTag tagName ty).hasError = true ↔
      ∃ bytes, last tagName = some bytes ∧ bytes.length ≠ typeSize ty := by
  have hnot : ¬ g.hasError = true := Bool.eq_false_iff.mp hok
  simp only [TagGroup.readTag, if_neg hnot, hprotocol, adsImpl_tags]
  cases hget : g.adsTags[tagName]? with
  | none =>
    refine ⟨fun hno => absurd hno hnot, ?_⟩
    rintro ⟨bytes, hlast, -⟩
    cases (h.absent tagName hget).symm.trans hlast
  | some tag =>
    have hshows := h.tags hok tagName tag hget
    simp only
    cases hinitialized : tag.initialized with
    | true =>
      rw [(hshows.answered hinitialized).1, Bool.true_and]
      split
      · rename_i hsize
        exact ⟨fun _ => ⟨_, rfl, of_decide_eq_true hsize⟩, fun _ => rfl⟩
      · rename_i hsize
        refine ⟨fun hno => absurd hno hnot, ?_⟩
        rintro ⟨bytes, hlast, hne⟩
        obtain rfl := Option.some.inj hlast
        exact absurd (decide_eq_true hne) hsize
    | false =>
      rw [hshows.silent hinitialized, Bool.false_and, if_neg Bool.false_ne_true]
      refine ⟨fun hno => absurd hno hnot, ?_⟩
      rintro ⟨bytes, hlast, -⟩
      cases hlast

omit [Rtde.GodotVariant V] in
/-- What is read, and what is taken for an error, whatever runs and whether or not there is an
error. -/
theorem ShowsAnswers.reads {g : TagGroup V} {last : CStr → Option (List UInt8)}
    (h : ShowsAnswers g last) (hprotocol : g.protocol = .ads) (enableComms simRunning : Bool)
    (tagName : CStr) :
    (∀ size, g.adsRead enableComms simRunning tagName size =
      readAs size (if enableComms && simRunning && !g.hasError then last tagName else none)) ∧
    ∀ ty, (g.readTag tagName ty).hasError = true ↔ g.hasError = true ∨
      ∃ bytes, last tagName = some bytes ∧ bytes.length ≠ typeSize ty := by
  constructor
  · intro size
    cases hruns : enableComms && simRunning with
    | false =>
      rw [TagGroup.adsRead, hruns]
      rfl
    | true =>
      obtain ⟨rfl, rfl⟩ := Bool.and_eq_true_iff.mp hruns
      cases herror : g.hasError with
      | true =>
        rw [TagGroup.adsRead, herror, if_pos rfl, ite_self]
        rfl
      | false => exact h.adsRead herror hprotocol tagName size
  · intro ty
    cases herror : g.hasError with
    | true =>
      refine ⟨fun _ => .inl rfl, fun _ => ?_⟩
      rcases readTag_cases g tagName ty with hread | hread
      · rw [hread]
        exact herror
      · rw [hread]
        rfl
    | false =>
      rw [h.readTag herror hprotocol tagName ty]
      exact ⟨.inr, fun h => h.resolve_left Bool.false_ne_true⟩

omit [Rtde.GodotVariant V] in
/-- A group without an object shows nothing. -/
theorem ShowsAnswers.fresh {g : TagGroup V} (hnone : g.adsImpl = none) :
    ShowsAnswers g fun _ => none := by
  refine ⟨fun _ tagName tag hget => ?_, fun _ _ => rfl⟩
  rw [TagGroup.adsTags, hnone] at hget
  cases Std.ExtTreeMap.getElem?_empty.symm.trans hget

/-- In every state of a run, a tag of an ADS group is read as what the device of the group answered
with last, since it was made; as zeros if that is not of the size of the type that is read, which
the read then takes for an error, or if there is none, the group has an error or nothing runs. -/
theorem ads_reads_last (ops : List (Label V)) :
    Along adsHistory.step (fun x => ∀ (name : CStr) (g : TagGroup V),
      x.1.comms.tagGroups[name]? = some g → g.protocol = .ads → ∀ tagName : CStr,
        (∀ size, g.adsRead x.1.comms.enableComms x.1.comms.simRunning tagName size =
          readAs size (if x.1.comms.enableComms && x.1.comms.simRunning && !g.hasError then
            x.2 name tagName else none)) ∧
        ∀ ty, (g.readTag tagName ty).hasError = true ↔ g.hasError = true ∨
          ∃ bytes, x.2 name tagName = some bytes ∧ bytes.length ≠ typeSize ty)
      adsHistory.init ops := by
  refine (History.along_protocol (P := ShowsAnswers) .ads (.fresh rfl) (fun _ _ _ _ _ => .fresh rfl)
    (fun g last h hprotocol next op => ?_) ops).mono _ fun x hx name g hget hprotocol tagName => ?_
  · exact h.after hprotocol next op
  · exact (hx name g hget hprotocol).reads hprotocol x.1.comms.enableComms x.1.comms.simRunning
      tagName

end

end OipComms.Backend
