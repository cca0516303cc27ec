import OipComms.Backend.AdsValues
import OipComms.Lib.Custody

/-!
# The devices and handles of an ADS group

A handle is handed out by a device, and goes back to it: the library asks the device to delete the
handle when it is given back, and with a device that is gone there would be nobody to ask. A group
gives its handles back first wherever it gives up a device: in `init_ads_device`, and when its object
is deleted, since the tags stand behind the device in it.

What a group does with its device and its handles is written down as it happens, from the
registration of the group on.
-/

namespace OipComms.Backend

open Custody Run Sweep

variable {V : Type}

/-- What TwinCAT hands out: devices, and the handle of a tag on a device. -/
inductive AdsRef
  | device (n : Nat)
  | handle (device : Nat) (tagName : CStr)
  deriving DecidableEq

/-- The device of a group, the devices that the handles of its tags are of, the number of the next
device, and what was done with all of them. -/
structure AdsTrace where
  device : Option Nat := none
  makers : CStr → Option Nat := fun _ => none
  next : Nat := 0
  events : List (Event AdsRef) := []

/-- A handle is given back, if there is one: its device deletes it. -/
def giveBack (maker : Option Nat) (tagName : CStr) : List (Event AdsRef) :=
  maker.toList.flatMap fun device => [.use (.device device), .release (.handle device tagName)]

/-- A device reads or writes by the handle of a tag, if there is one. -/
def byHandle (device : Nat) (maker : Option Nat) (tagName : CStr) : List (Event AdsRef) :=
  maker.toList.flatMap fun maker => [.use (.handle maker tagName), .use (.device device)]

/-- A tag's turn in `process_ads_tag_group`: what is done, and the device its handle then is of. The
look-up asks the device twice; a handle put in the place of another gives that one back. -/
def adsTurn (env : AdsEnv) (device : Nat) (maker : Option Nat) (tagName : CStr)
    (tag : AdsTagEntry) : List (Event AdsRef) × Option Nat :=
  if tag.initialized then (byHandle device maker tagName, maker)
  else
    match env.symbolSize tagName with
    | none => ([.use (.device device)], maker)
    | some _ =>
      match env.getHandle tagName with
      | none => ([.use (.device device), .use (.device device)], maker)
      | some _ =>
        ([.use (.device device), .use (.device device), .acquire (.handle device tagName)] ++
          giveBack maker tagName ++ byHandle device (some device) tagName, some device)

namespace AdsTrace

variable (t : AdsTrace)

/-- A poll asks a device for tags. -/
def asks (env : AdsEnv) (device : Nat) (tags : Std.ExtTreeMap CStr AdsTagEntry) : AdsTrace :=
  let turns := visited (pollAdsTag (V := V) env) tags.toList
  { t with
    makers := fun tagName =>
      if tagName ∈ turns.map Prod.fst then
        (tags[tagName]?).elim none fun tag => (adsTurn env device (t.makers tagName) tagName tag).2
      else t.makers tagName
    events := t.events ++
      turns.flatMap fun x => (adsTurn env device (t.makers x.1) x.1 x.2).1 }

/-- The handles are given back, and then the device. -/
def drop (tags : Std.ExtTreeMap CStr AdsTagEntry) : AdsTrace :=
  { t with
    device := none
    makers := fun _ => none
    events := t.events ++ (tags.toList.flatMap fun x => giveBack (t.makers x.1) x.1) ++
      t.device.toList.map fun device => .release (.device device) }

/-- A device is made, and asked for its port. -/
def makes : AdsTrace :=
  { t with
    device := some t.next
    next := t.next + 1
    events := t.events ++ [.acquire (.device t.next), .use (.device t.next)] }

/-- `process_ads_tag_group`. -/
def poll (env : AdsEnv) (g : TagGroup V) : AdsTrace :=
  if g.hasError then t
  else if g.adsDeviceConnected then
    match t.device with
    | none => t
    | some device => t.asks (V := V) env device g.adsTags
  else if !env.dllAvailable then t
  else
    let t := t.drop g.adsTags
    if g.adsReachable env then
      t.makes.asks (V := V) env t.next (g.adsTags.map fun _ tag => tag.reset)
    else t

/-- `ads_tag_set`, with a value of the setter's type or another. -/
def tagSet (typed : Bool) (g : TagGroup V) (tagName : CStr) : AdsTrace :=
  match t.device with
  | none => t
  | some device =>
    if typed && g.adsDeviceConnected && (g.adsTags[tagName]?).any AdsTagEntry.initialized then
      { t with events := t.events ++ byHandle device (t.makers tagName) tagName }
    else t

end AdsTrace

/-- What each group does with its devices and handles. `typed` says whether a value is of the type
of an instruction. -/
def adsTraces (typed : V → Nat → Bool) : History V AdsTrace where
  fresh := {}
  note g _ op t :=
    match op with
    | .poll env => t.poll env.ads g
    | .write _ w =>
      if (instructionType w.instruction).isSome then
        t.tagSet (typed w.value w.instruction) g w.tagName
      else t
    | .cleanup => t.drop g.adsTags
    | _ => t

/-! ## A turn -/

section
variable (env : AdsEnv) (device : Nat) (tagName : CStr) (tag : AdsTagEntry)

/-- The device that the handle of a tag is of: the group's, if the tag is initialised. -/
def AdsTagEntry.maker (tag : AdsTagEntry) (device : Option Nat) : Option Nat :=
  if tag.initialized then device else none

/-- What a turn does: it reads; it looks the tag up, and fails at the symbol or at the handle; or it
looks it up and reads. -/
theorem adsTurn_cases :
    adsTurn env device (tag.maker (some device)) tagName tag =
        ([.use (.handle device tagName), .use (.device device)], some device) ∧
      tag.initialized = true ∨
    (∃ uses, (∀ e ∈ uses, e = .use (.device device)) ∧
      adsTurn env device (tag.maker (some device)) tagName tag = (uses, none)) ∧
      tag.initialized = false ∧ (initAdsTag env tagName tag).1 = false ∨
    adsTurn env device (tag.maker (some device)) tagName tag =
        ([.use (.device device), .use (.device device), .acquire (.handle device tagName),
          .use (.handle device tagName), .use (.device device)], some device) ∧
      tag.initialized = false ∧ (initAdsTag env tagName tag).1 = true := by
  unfold adsTurn AdsTagEntry.maker initAdsTag
  cases tag.initialized with
  | true => exact .inl ⟨rfl, rfl⟩
  | false =>
    simp only [Bool.false_eq_true, if_false, true_and]
    cases env.symbolSize tagName with
    | none => exact .inr (.inl ⟨⟨_, by simp, rfl⟩, rfl⟩)
    | some size =>
      simp only
      cases env.getHandle tagName with
      | none => exact .inr (.inl ⟨⟨_, by simp, rfl⟩, rfl⟩)
      | some handle => exact .inr (.inr ⟨rfl, rfl⟩)

/-- After its turn the tag has a handle if it is initialised. -/
theorem adsTurn_maker :
    (adsTurn env device (tag.maker (some device)) tagName tag).2 =
      (pollAdsTag env tagName tag : Swept AdsTagEntry (Effect V)).entry.maker (some device) := by
  have hentry : (pollAdsTag env tagName tag : Swept AdsTagEntry (Effect V)).entry.initialized =
      (tag.initialized || (initAdsTag env tagName tag).1) := by
    unfold pollAdsTag
    cases hinitialized : tag.initialized with
    | true => exact (readAdsTag_entry (V := V) env tag 0).1.trans hinitialized
    | false =>
      have hinit := initAdsTag_entry env tagName hinitialized
      simp only [Bool.false_eq_true, if_false, Bool.false_or]
      generalize initAdsTag env tagName tag = r at hinit ⊢
      rcases r with ⟨_ | _, tag'⟩
      · exact hinit
      · exact (readAdsTag_entry (V := V) env tag' 1).1.trans hinit
  have hmaker : (pollAdsTag env tagName tag : Swept AdsTagEntry (Effect V)).entry.maker
      (some device) = if tag.initialized || (initAdsTag env tagName tag).1 then some device
        else none := by
    rw [AdsTagEntry.maker, hentry]
  rw [hmaker]
  rcases adsTurn_cases env device tagName tag with
    ⟨hturn, hinitialized⟩ | ⟨⟨uses, -, hturn⟩, hinitialized, hinit⟩ | ⟨hturn, hinitialized, hinit⟩
  · rw [hturn, hinitialized]
    rfl
  · rw [hturn, hinitialized, hinit]
    rfl
  · rw [hturn, hinitialized, hinit]
    rfl

/-- A turn only uses the device, and does nothing with the handles of other tags. -/
theorem adsTurn_about {e : Event AdsRef}
    (he : e ∈ (adsTurn env device (tag.maker (some device)) tagName tag).1) :
    e = .use (.device device) ∨ e.about = .handle device tagName := by
  rcases adsTurn_cases env device tagName tag with
    ⟨hturn, -⟩ | ⟨⟨uses, huses, hturn⟩, -, -⟩ | ⟨hturn, -, -⟩
  · rw [hturn] at he
    simp only [List.mem_cons, List.not_mem_nil, or_false] at he
    rcases he with rfl | rfl
    · exact .inr rfl
    · exact .inl rfl
  · rw [hturn] at he
    exact .inl (huses e he)
  · rw [hturn] at he
    simp only [List.mem_cons, List.not_mem_nil, or_false] at he
    rcases he with rfl | rfl | rfl | rfl | rfl
    · exact .inl rfl
    · exact .inl rfl
    · exact .inr rfl
    · exact .inr rfl
    · exact .inl rfl

/-- What a turn does with the handle of its tag is in order. -/
theorem adsTurn_handle :
    alone (.handle device tagName) (tag.maker (some device)).isSome
        (adsTurn env device (tag.maker (some device)) tagName tag).1 =
      some (adsTurn env device (tag.maker (some device)) tagName tag).2.isSome := by
  rcases adsTurn_cases env device tagName tag with
    ⟨hturn, hinitialized⟩ | ⟨⟨uses, huses, hturn⟩, hinitialized, -⟩ | ⟨hturn, hinitialized, -⟩
  · rw [hturn, AdsTagEntry.maker, hinitialized]
    simp [alone, Event.about, Event.alone]
  · rw [hturn, AdsTagEntry.maker, hinitialized]
    refine alone_of_ne _ fun e he => ?_
    rw [huses e he]
    exact AdsRef.noConfusion
  · rw [hturn, AdsTagEntry.maker, hinitialized]
    simp [alone, Event.about, Event.alone]

end

/-! ## What is held -/

/-- The handle of a tag is of the device that is there, or there is none. -/
theorem maker_cases (tag : AdsTagEntry) (device : Nat) :
    tag.maker (some device) = some device ∨ tag.maker (some device) = none := by
  rw [AdsTagEntry.maker]
  split
  · exact .inl rfl
  · exact .inr rfl

/-- Whether a tag has a handle, by its maker. -/
theorem decide_maker (tag : AdsTagEntry) (device : Nat) :
    decide (tag.maker (some device) = some device) = (tag.maker (some device)).isSome := by
  rcases maker_cases tag device with hmaker | hmaker
  · rw [hmaker, decide_eq_true rfl]
    rfl
  · rw [hmaker]
    rfl

namespace AdsTrace

variable {t : AdsTrace} {tags : Std.ExtTreeMap CStr AdsTagEntry}

/-- What a group holds of TwinCAT. -/
def holds (t : AdsTrace) : AdsRef → Bool
  | .device n => decide (t.device = some n)
  | .handle device tagName => decide (t.makers tagName = some device)

/-- All that was done is in order; and the tags that are initialised, and no others, have a handle,
of the group's device. -/
structure Holds (t : AdsTrace) (tags : Std.ExtTreeMap CStr AdsTagEntry) : Prop where
  makers : ∀ tagName : CStr,
    t.makers tagName = (tags[tagName]?).bind fun tag => tag.maker t.device
  custody : ∀ r, alone r false t.events = some (t.holds r)

/-- The trace knows the maker of each handle. -/
theorem Holds.maker (h : t.Holds tags) {device : Nat} (hdevice : t.device = some device)
    {tagName : CStr} {tag : AdsTagEntry} (hget : tags[tagName]? = some tag) :
    t.makers tagName = tag.maker (some device) := by
  rw [h.makers, hget, hdevice]
  rfl

/-- A handle that is given back is of the device. -/
theorem Holds.device_eq (h : t.Holds tags) {tagName : CStr} {maker : Nat}
    (hmaker : t.makers tagName = some maker) : t.device = some maker := by
  rw [h.makers] at hmaker
  obtain ⟨tag, -, hmaker⟩ := Option.bind_eq_some_iff.mp hmaker
  rw [AdsTagEntry.maker] at hmaker
  split at hmaker
  · exact hmaker
  · cases hmaker

section
variable (h : t.Holds tags) (env : AdsEnv) {device : Nat} (hdevice : t.device = some device)
include h hdevice

/-- A turn of a poll, of a tag with the handle it has. -/
theorem Holds.turn {x : CStr × AdsTagEntry}
    (hx : x ∈ visited (pollAdsTag (V := V) env) tags.toList) :
    tags[x.1]? = some x.2 ∧ t.makers x.1 = x.2.maker (some device) ∧
      ∀ e ∈ (adsTurn env device (t.makers x.1) x.1 x.2).1,
        e = .use (.device device) ∨ e.about = .handle device x.1 := by
  have hget : tags[x.1]? = some x.2 :=
    Std.ExtTreeMap.mem_toList_iff_getElem?_eq_some.mp ((visited_sublist _ _).subset hx)
  have hmaker := h.maker hdevice hget
  refine ⟨hget, hmaker, fun e he => ?_⟩
  rw [hmaker] at he
  exact adsTurn_about env device x.1 x.2 he

/-- After the turns of a poll the trace has the maker of each handle. -/
theorem Holds.asks_makers (tagName : CStr) :
    (t.asks (V := V) env device tags).makers tagName =
      ((sweep (pollAdsTag (V := V) env) tags).entries[tagName]?).bind fun tag =>
        tag.maker t.device := by
  show (if _ then _ else _) = _
  rw [sweep, Std.ExtTreeMap.getElem?_map]
  cases hget : tags[tagName]? with
  | none =>
    have hnone : t.makers tagName = none := by
      rw [h.makers, hget]
      rfl
    rw [hnone]
    exact ite_self _
  | some tag =>
    rw [h.maker hdevice hget, Option.map_some, Option.bind_some, turned, Option.elim_some]
    show _ = AdsTagEntry.maker _ t.device
    rw [hdevice]
    split
    · exact adsTurn_maker env device tagName tag
    · rfl

/-- The turns use the device. -/
theorem Holds.asks_device (n : Nat) :
    alone (.device n) (t.holds (.device n))
        ((visited (pollAdsTag (V := V) env) tags.toList).flatMap fun x =>
          (adsTurn env device (t.makers x.1) x.1 x.2).1) =
      some (t.holds (.device n)) := by
  rw [holds, hdevice]
  by_cases hn : device = n
  · subst hn
    rw [decide_eq_true rfl]
    refine alone_of_uses fun e he hsame => ?_
    obtain ⟨x, hx, he⟩ := List.mem_flatMap.mp he
    refine ((h.turn env hdevice hx).2.2 e he).resolve_right fun hhandle => ?_
    exact AdsRef.noConfusion (hsame.symm.trans hhandle)
  · refine alone_of_ne _ fun e he hsame => ?_
    obtain ⟨x, hx, he⟩ := List.mem_flatMap.mp he
    rcases (h.turn env hdevice hx).2.2 e he with rfl | hhandle
    · exact hn (AdsRef.device.inj hsame)
    · exact AdsRef.noConfusion (hsame.symm.trans hhandle)

/-- Only a tag's own turn does anything with its handle. -/
theorem Holds.asks_handle (maker : Nat) (tagName : CStr) :
    alone (.handle maker tagName) (t.holds (.handle maker tagName))
        ((visited (pollAdsTag (V := V) env) tags.toList).flatMap fun x =>
          (adsTurn env device (t.makers x.1) x.1 x.2).1) =
      some ((t.asks (V := V) env device tags).holds (.handle maker tagName)) := by
  have hothers : ∀ x ∈ visited (pollAdsTag (V := V) env) tags.toList,
      (x.1 ≠ tagName ∨ device ≠ maker) →
      ∀ e ∈ (adsTurn env device (t.makers x.1) x.1 x.2).1, e.about ≠ .handle maker tagName := by
    intro x hx hne e he hsame
    rcases (h.turn env hdevice hx).2.2 e he with rfl | hhandle
    · exact AdsRef.noConfusion hsame
    · obtain ⟨hdev, hname⟩ := AdsRef.handle.inj (hhandle.symm.trans hsame)
      exact hne.elim (fun hno => hno hname) fun hno => hno hdev
  by_cases hmem : device = maker ∧
      tagName ∈ (visited (pollAdsTag (V := V) env) tags.toList).map Prod.fst
  · obtain ⟨rfl, hmem⟩ := hmem
    have hafter := h.asks_makers (V := V) env hdevice tagName
    obtain ⟨x, hx, rfl⟩ := List.mem_map.mp hmem
    obtain ⟨hget, hmaker, -⟩ := h.turn env hdevice hx
    have hown : ∀ y ∈ visited (pollAdsTag (V := V) env) tags.toList, y.1 = x.1 → y = x := by
      intro y hy heq
      have hsame := (h.turn env hdevice hy).1
      rw [heq, hget] at hsame
      exact Prod.ext heq (Option.some.inj hsame).symm
    have hturn : (t.asks (V := V) env device tags).makers x.1 =
        (adsTurn env device (t.makers x.1) x.1 x.2).2 := by
      show (if _ then _ else _) = _
      rw [if_pos hmem, hget, Option.elim_some]
    rw [alone_flatMap ((nodup_toList tags).sublist (visited_sublist _ _)) hx _
      fun y hy hne => hothers y hy (.inl fun heq => hne (hown y hy heq))]
    rw [holds, holds, hturn, hmaker, decide_maker, adsTurn_handle, adsTurn_maker (V := V),
      decide_maker]
  · have hno : alone (.handle maker tagName) (t.holds (.handle maker tagName))
        ((visited (pollAdsTag (V := V) env) tags.toList).flatMap fun x =>
          (adsTurn env device (t.makers x.1) x.1 x.2).1) =
        some (t.holds (.handle maker tagName)) := by
      refine alone_of_ne _ fun e he => ?_
      obtain ⟨x, hx, he⟩ := List.mem_flatMap.mp he
      refine hothers x hx ?_ e he
      by_cases hname : x.1 = tagName
      · exact .inr fun heq => hmem ⟨heq, hname ▸ List.mem_map_of_mem hx⟩
      · exact .inl hname
    rw [hno, holds, holds]
    by_cases hvisited : tagName ∈ (visited (pollAdsTag (V := V) env) tags.toList).map Prod.fst
    · have hne : device ≠ maker := fun heq => hmem ⟨heq, hvisited⟩
      have hbefore : t.makers tagName ≠ some maker := fun hmaker =>
        hne (Option.some.inj (hdevice.symm.trans (h.device_eq hmaker)))
      have hafter : (t.asks (V := V) env device tags).makers tagName ≠ some maker := by
        rw [h.asks_makers env hdevice, hdevice]
        intro hmaker
        obtain ⟨tag, -, hmaker⟩ := Option.bind_eq_some_iff.mp hmaker
        rcases maker_cases tag device with hsome | hnone
        · exact hne (Option.some.inj (hsome.symm.trans hmaker))
        · cases hnone.symm.trans hmaker
      rw [decide_eq_false hbefore, decide_eq_false hafter]
    · have hsame : (t.asks (V := V) env device tags).makers tagName = t.makers tagName := by
        show (if _ then _ else _) = _
        rw [if_neg hvisited]
      rw [hsame]

/-- The turns of a poll keep the trace to what is held. -/
theorem Holds.asks :
    (t.asks (V := V) env device tags).Holds (sweep (pollAdsTag (V := V) env) tags).entries := by
  refine ⟨h.asks_makers env hdevice, fun r => ?_⟩
  show alone r false (t.events ++ _) = _
  rw [alone_append, h.custody r, Option.bind_some]
  cases r with
  | device n => exact h.asks_device env hdevice n
  | handle maker tagName => exact h.asks_handle env hdevice maker tagName

end

/-- Giving back a handle uses its device. -/
theorem mem_giveBack {maker : Option Nat} {tagName : CStr} {e : Event AdsRef}
    (he : e ∈ giveBack maker tagName) : ∃ device, maker = some device ∧
      (e = .use (.device device) ∨ e = .release (.handle device tagName)) := by
  obtain ⟨device, hmaker, he⟩ := List.mem_flatMap.mp he
  refine ⟨device, Option.mem_toList.mp hmaker, ?_⟩
  simpa only [List.mem_cons, List.not_mem_nil, or_false] using he

/-- A device is given back once. -/
theorem Holds.dropped_device (h : t.Holds tags) (n : Nat) :
    alone (.device n) (t.holds (.device n))
      ((tags.toList.flatMap fun x => giveBack (t.makers x.1) x.1) ++
        t.device.toList.map fun device => .release (.device device)) = some false := by
  rw [alone_append]
  have habout : ∀ e ∈ tags.toList.flatMap fun x => giveBack (t.makers x.1) x.1,
      ∀ n, e.about = .device n → t.device = some n ∧ e = .use (.device n) := by
    intro e he n hsame
    obtain ⟨x, -, he⟩ := List.mem_flatMap.mp he
    obtain ⟨device, hmaker, rfl | rfl⟩ := mem_giveBack he
    · obtain rfl := AdsRef.device.inj hsame
      exact ⟨h.device_eq hmaker, rfl⟩
    · exact AdsRef.noConfusion hsame
  by_cases hn : t.device = some n
  · rw [holds, decide_eq_true hn, alone_of_uses fun e he hsame => (habout e he n hsame).2, hn]
    simp [alone, Event.about, Event.alone]
  · rw [holds, decide_eq_false hn, alone_of_ne _ fun e he hsame => hn (habout e he n hsame).1,
      Option.bind_some]
    refine alone_of_ne _ fun e he hsame => ?_
    obtain ⟨device, hdevice, rfl⟩ := List.mem_map.mp he
    obtain rfl := AdsRef.device.inj hsame
    exact hn (Option.mem_toList.mp hdevice)

/-- A handle is given back once, before its device. -/
theorem Holds.dropped_handle (h : t.Holds tags) (maker : Nat) (tagName : CStr) :
    alone (.handle maker tagName) (t.holds (.handle maker tagName))
      ((tags.toList.flatMap fun x => giveBack (t.makers x.1) x.1) ++
        t.device.toList.map fun device => .release (.device device)) = some false := by
  have hrest : ∀ held, alone (AdsRef.handle maker tagName) held
      (t.device.toList.map fun device => .release (AdsRef.device device)) = some held := by
    refine fun held => alone_of_ne held fun e he hsame => ?_
    obtain ⟨device, -, rfl⟩ := List.mem_map.mp he
    exact AdsRef.noConfusion hsame
  have hothers : ∀ x : CStr × AdsTagEntry, (x.1 = tagName → t.makers tagName ≠ some maker) →
      ∀ e ∈ giveBack (t.makers x.1) x.1, e.about ≠ .handle maker tagName := by
    intro x hne e he hsame
    obtain ⟨device, hmaker, rfl | rfl⟩ := mem_giveBack he
    · exact AdsRef.noConfusion hsame
    · obtain ⟨rfl, rfl⟩ := AdsRef.handle.inj hsame
      exact hne rfl hmaker
  rw [alone_append, holds]
  by_cases hmaker : t.makers tagName = some maker
  · obtain ⟨tag, hget, -⟩ := Option.bind_eq_some_iff.mp ((h.makers tagName).symm.trans hmaker)
    have hmem : (tagName, tag) ∈ tags.toList :=
      Std.ExtTreeMap.mem_toList_iff_getElem?_eq_some.mpr hget
    have hown : ∀ x ∈ tags.toList, x ≠ (tagName, tag) → x.1 ≠ tagName := by
      rintro ⟨name, tag'⟩ hx hne rfl
      have hsame := Std.ExtTreeMap.mem_toList_iff_getElem?_eq_some.mp hx
      rw [hget] at hsame
      exact hne (Prod.ext rfl (Option.some.inj hsame).symm)
    rw [alone_flatMap (nodup_toList tags) hmem _
      fun x hx hne => hothers x fun heq => absurd heq (hown x hx hne)]
    simp only [hmaker, decide_true, giveBack, Option.toList_some, List.flatMap_cons,
      List.flatMap_nil, List.append_nil]
    simp [alone, Event.about, Event.alone, hrest]
  · rw [decide_eq_false hmaker, alone_of_ne _ fun e he => ?_, Option.bind_some, hrest]
    obtain ⟨x, -, he⟩ := List.mem_flatMap.mp he
    exact hothers x (fun _ => hmaker) e he

/-- The handles go back to the device that is there, and then the device. -/
theorem Holds.drop (h : t.Holds tags) (tags' : Std.ExtTreeMap CStr AdsTagEntry) :
    (t.drop tags).Holds tags' := by
  refine ⟨fun tagName => ?_, fun r => ?_⟩
  · show none = _
    cases tags'[tagName]? with
    | none => rfl
    | some tag => exact (ite_self none).symm
  · show alone r false (t.events ++ _ ++ _) = _
    rw [List.append_assoc, alone_append, h.custody r, Option.bind_some]
    cases r with
    | device n => exact h.dropped_device n
    | handle maker tagName => exact h.dropped_handle maker tagName

/-- A device that is made has no handles yet. -/
theorem Holds.makes (h : t.Holds tags) (hnone : t.device = none)
    (hreset : ∀ (tagName : CStr) (tag : AdsTagEntry), tags[tagName]? = some tag →
      tag.initialized = false) : t.makes.Holds tags := by
  refine ⟨fun tagName => ?_, fun r => ?_⟩
  · show t.makers tagName = _
    rw [h.makers, hnone]
    cases hget : tags[tagName]? with
    | none => rfl
    | some tag =>
      rw [Option.bind_some, Option.bind_some, AdsTagEntry.maker, AdsTagEntry.maker,
        hreset tagName tag hget]
      rfl
  · show alone r false (t.events ++ _) = _
    rw [alone_append, h.custody r, Option.bind_some]
    cases r with
    | device n =>
      rw [holds, hnone]
      by_cases hn : t.next = n
      · subst hn
        simp [alone, Event.about, Event.alone, holds, AdsTrace.makes]
      · simp [alone, Event.about, holds, AdsTrace.makes, hn]
    | handle maker tagName =>
      refine alone_of_ne _ fun e he hsame => ?_
      simp only [List.mem_cons, List.not_mem_nil, or_false] at he
      rcases he with rfl | rfl
      · exact AdsRef.noConfusion hsame
      · exact AdsRef.noConfusion hsame

/-- Reads and writes by the handles that there are. -/
theorem Holds.byHandle (h : t.Holds tags) {device : Nat} (hdevice : t.device = some device)
    (tagName : CStr) :
    ({ t with events := t.events ++ Backend.byHandle device (t.makers tagName) tagName } :
      AdsTrace).Holds tags := by
  refine ⟨h.makers, fun r => ?_⟩
  show alone r false (t.events ++ _) = some (t.holds r)
  rw [alone_append, h.custody r, Option.bind_some]
  refine alone_uses (fun e he => ?_) r
  obtain ⟨maker, hmaker, he⟩ := List.mem_flatMap.mp he
  simp only [List.mem_cons, List.not_mem_nil, or_false] at he
  rcases he with rfl | rfl
  · exact ⟨_, rfl, decide_eq_true (Option.mem_toList.mp hmaker)⟩
  · exact ⟨_, rfl, decide_eq_true hdevice⟩

/-! ## Whatever happens to a group -/

/-- The trace of a group: there is a device as long as the group is connected. -/
structure Follows (t : AdsTrace) (g : TagGroup V) : Prop where
  device : t.device.isSome = g.adsDeviceConnected
  holds : t.Holds g.adsTags

/-- What leaves the ADS object leaves the trace. -/
theorem Follows.same {g g' : TagGroup V} (h : t.Follows g) (hsame : g'.adsImpl = g.adsImpl) :
    t.Follows g' := by
  obtain ⟨hdevice, hholds⟩ := h
  rw [TagGroup.adsDeviceConnected, ← hsame] at hdevice
  rw [TagGroup.adsTags, ← hsame] at hholds
  exact ⟨hdevice, hholds⟩

/-- A new tag has no handle. -/
theorem Follows.registerTag {v : Visit V} (h : t.Follows v.group) {tagName : CStr}
    (hnew : v.group.has tagName = false) (hprotocol : v.group.protocol = .ads)
    (ty : Comms.TagType) : t.Follows (v.registerTag tagName ty).2.group := by
  obtain ⟨hnone, htags, hconnected, -⟩ := registerTag_ads hnew hprotocol ty
  refine ⟨h.device.trans hconnected.symm, fun name => ?_, h.holds.custody⟩
  rw [htags, h.holds.makers, Std.ExtTreeMap.getElem?_insert]
  split
  · rename_i heq
    obtain rfl := Std.compare_eq_iff_eq.mp heq
    rw [hnone]
    rfl
  · rfl

/-- A poll adds what it does to the trace. -/
theorem Follows.poll {v : Visit V} (h : t.Follows v.group) (hok : v.group.hasError = false)
    (env : AdsEnv) : (t.poll env v.group).Follows (v.processAdsTagGroup env).group := by
  rw [processAdsTagGroup_eq, AdsTrace.poll, if_neg (Bool.eq_false_iff.mp hok)]
  split
  · rename_i hconnected
    obtain ⟨impl, himpl, hclient⟩ := (Option.any_eq_true _ _).mp hconnected
    obtain ⟨device, hdevice⟩ := Option.isSome_iff_exists.mp (h.device.trans hconnected)
    have htags : v.group.adsTags = impl.tags := by
      rw [TagGroup.adsTags, himpl]
      rfl
    have hasks := h.holds.asks (V := V) env hdevice
    rw [htags] at hasks ⊢
    simp only [hdevice, himpl]
    exact ⟨(congrArg Option.isSome hdevice).trans hclient.symm, hasks⟩
  split
  · exact ⟨h.device, h.holds⟩
  have hreset : (v.ads.1.anew true).tags = v.group.adsTags.map fun _ tag => tag.reset := by
    rw [← v.ads_tags]
    rfl
  simp only
  cases v.group.adsReachable env with
  | true =>
    rw [if_pos rfl, if_pos rfl, ← hreset]
    refine ⟨rfl, Holds.asks (Holds.makes (h.holds.drop _) rfl fun tagName tag hget => ?_) env rfl⟩
    simp only [AdsTagGroupImpl.anew, Std.ExtTreeMap.getElem?_map] at hget
    obtain ⟨tag, -, rfl⟩ := Option.map_eq_some_iff.mp hget
    rfl
  | false =>
    rw [if_neg Bool.false_ne_true, if_neg Bool.false_ne_true]
    exact ⟨rfl, h.holds.drop _⟩

section
variable [Rtde.GodotVariant V]

/-- What happens to a group adds to the trace what it does. -/
theorem Follows.after {g : TagGroup V} (h : t.Follows g) (hprotocol : g.protocol = .ads)
    (typed : V → Nat → Bool) (next : Nat) (op : GroupOp V) :
    AdsTrace.Follows ((adsTraces typed).note g next op t) (g.after next op).group := by
  have hgroup : ({ group := g, next := next } : Visit V).group = g := rfl
  rw [TagGroup.after]
  generalize ({ group := g, next := next } : Visit V) = v at *
  subst hgroup
  cases op with
  | registerTag tagName ty =>
    show t.Follows (if _ then v else _).group
    split
    · exact h
    · rename_i hnew
      exact h.registerTag (Bool.eq_false_iff.mpr hnew) hprotocol ty
  | poll env =>
    show (t.poll env.ads v.group).Follows (v.processTagGroup env).group
    simp only [Visit.processTagGroup, hprotocol]
    split
    · rename_i herror
      rw [AdsTrace.poll, if_pos herror]
      exact h
    · rename_i hok
      exact h.poll (Bool.eq_false_iff.mpr hok) env.ads
  | write env w =>
    simp only [Visit.apply, Visit.processWrite, hprotocol]
    show AdsTrace.Follows (if _ then _ else _) _
    split
    · rw [AdsTrace.tagSet]
      split
      · exact h
      · rename_i device hdevice
        split
        · exact ⟨h.device, h.holds.byHandle hdevice w.tagName⟩
        · exact h
    · exact h
  | read tagName ty =>
    simp only [Visit.apply, Visit.withGroup]
    rcases readTag_cases v.group tagName ty with hread | hread
    · rw [hread]
      exact h
    · rw [hread]
      exact h.same rfl
  | message topic payload =>
    simp only [Visit.apply, Visit.withGroup]
    rcases mqttMessageArrived_cases v.group topic payload with hsame | ⟨_, _, -, -, hnew⟩
    · rw [hsame]
      exact h
    · rw [hnew]
      exact h.same rfl
  | setSoftPlcProgram source | setSoftPlcWatchEnabled enabled =>
    simp only [Visit.apply, Visit.setSoftPlcProgram, Visit.setSoftPlcWatchEnabled]
    rcases v.softPlc_cases with ⟨-, hsame⟩ | ⟨-, hnew⟩
    · simp only [Visit.withGroup, hsame]
      exact h.same rfl
    · rw [hnew]
      exact h.same rfl
  | frame delta startupTimer => exact h.same rfl
  | cleanup =>
    simp only [Visit.apply, Visit.cleanup, Visit.release, hprotocol]
    exact ⟨rfl, h.holds.drop _⟩

end

/-- What is held of what was handed out, put together. -/
theorem Follows.exists_held {g : TagGroup V} (h : t.Follows g) :
    ∃ held, custody ∅ t.events = some held ∧
      (∀ d tagName, AdsRef.handle d tagName ∈ held ↔ AdsRef.device d ∈ held ∧
        ∃ tag, g.adsTags[tagName]? = some tag ∧ tag.initialized = true) ∧
      (g.adsDeviceConnected = true → ∃ d, ∀ d', AdsRef.device d' ∈ held ↔ d' = d) ∧
      (g.adsDeviceConnected = false → held = ∅) := by
  obtain ⟨hdevice, hholds⟩ := h
  have halone : ∀ r, alone r (decide (r ∈ (∅ : Finset AdsRef))) t.events = some (t.holds r) := by
    intro r
    rw [decide_eq_false (Finset.notMem_empty r)]
    exact hholds.custody r
  obtain ⟨held, hcustody, hheld⟩ := exists_custody halone
  have hdevices : ∀ d, AdsRef.device d ∈ held ↔ t.device = some d := fun d =>
    decide_eq_decide.mp (hheld (.device d))
  have hhandles : ∀ d tagName, AdsRef.handle d tagName ∈ held ↔ t.makers tagName = some d :=
    fun d tagName => decide_eq_decide.mp (hheld (.handle d tagName))
  refine ⟨held, hcustody, fun d tagName => ?_, fun hconnected => ?_, fun hnot => ?_⟩
  · rw [hhandles, hdevices, hholds.makers]
    constructor
    · intro hmaker
      obtain ⟨tag, hget, hmaker⟩ := Option.bind_eq_some_iff.mp hmaker
      rw [AdsTagEntry.maker] at hmaker
      split at hmaker
      · rename_i hinitialized
        exact ⟨hmaker, tag, hget, hinitialized⟩
      · cases hmaker
    · rintro ⟨hsome, tag, hget, hinitialized⟩
      rw [hget, Option.bind_some, AdsTagEntry.maker, if_pos hinitialized]
      exact hsome
  · obtain ⟨d, hd⟩ := Option.isSome_iff_exists.mp (hdevice.trans hconnected)
    refine ⟨d, fun d' => ?_⟩
    rw [hdevices, hd, Option.some.injEq]
    exact eq_comm
  · have hnone : t.device = none := Option.isNone_iff_eq_none.mp (by
      rw [← Option.not_isSome, hdevice, hnot]
      rfl)
    have hno : ∀ d, t.device ≠ some d := fun d hd =>
      Option.some_ne_none d (hd.symm.trans hnone)
    refine Finset.eq_empty_of_forall_notMem fun r hr => ?_
    cases r with
    | device d => exact hno d ((hdevices d).mp hr)
    | handle d tagName => exact hno d (hholds.device_eq ((hhandles d tagName).mp hr))

/-- A group that is registered has nothing. -/
theorem Follows.fresh {g : TagGroup V} (hnone : g.adsImpl = none) : AdsTrace.Follows {} g := by
  refine ⟨?_, fun tagName => ?_, fun r => ?_⟩
  · rw [TagGroup.adsDeviceConnected, hnone]
    rfl
  · rw [TagGroup.adsTags, hnone]
    exact (congrArg (Option.bind · _) Std.ExtTreeMap.getElem?_empty).symm
  · cases r <;> rfl

end AdsTrace

section
variable [Rtde.GodotVariant V]

/-- Since a group was registered, its device and the handles of its tags were used and given back
only while they were there; and between the steps of a run it holds one device as long as it is
connected, with a handle of that device for each tag that is initialised, and otherwise nothing. -/
theorem ads_custody (typed : V → Nat → Bool) (ops : List (Label V)) :
    Along (adsTraces typed).step (fun x => ∀ (name : CStr) (g : TagGroup V),
      x.1.comms.tagGroups[name]? = some g → g.protocol = .ads →
        ∃ held, custody ∅ (x.2 name).events = some held ∧
          (∀ d tagName, AdsRef.handle d tagName ∈ held ↔ AdsRef.device d ∈ held ∧
            ∃ tag, g.adsTags[tagName]? = some tag ∧ tag.initialized = true) ∧
          (g.adsDeviceConnected = true → ∃ d, ∀ d', AdsRef.device d' ∈ held ↔ d' = d) ∧
          (g.adsDeviceConnected = false → held = ∅))
      (adsTraces typed).init ops := by
  refine (History.along_protocol (P := fun g t => t.Follows g) .ads (.fresh rfl)
    (fun _ _ _ _ _ => .fresh rfl) (fun g t h hprotocol next op => ?_) ops).mono _
    fun x hx name g hget hprotocol => (hx name g hget hprotocol).exists_held
  exact h.after hprotocol typed next op

end

end OipComms.Backend
