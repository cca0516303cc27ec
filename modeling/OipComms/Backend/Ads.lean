import OipComms.Backend.Group

/-!
# An ADS group

A device is made by the first poll that can make one, and stays until the clean-up. A tag is looked
up by name once, for its size and a handle, and read by the handle from then on.
-/

namespace OipComms.Backend

open Sweep

/-- What TwinCAT answers in a poll: whether its library is there, the number in the `cpu` field,
whether the `path` field is a net id other than zero, whether the device can be made, the size of a
symbol, a handle, and the bytes of a read. A poll reads each tag once, and two tags with one handle
get one answer. -/
structure AdsEnv where
  dllAvailable : Bool := true
  toInt : CStr → Int := fun _ => 851
  netIdValid : CStr → Bool := fun _ => true
  connects : CStr → CStr → Int → Bool := fun _ _ _ => true
  symbolSize : CStr → Option Nat := fun _ => some 1
  getHandle : CStr → Option UInt32 := fun _ => some 0
  read : UInt32 → Nat → Option (List UInt8) := fun _ size => some (List.replicate size 0)

variable {V : Type}

/-- `ads_device_connected`. -/
def TagGroup.adsDeviceConnected (g : TagGroup V) : Bool := g.adsImpl.any AdsTagGroupImpl.client

/-- The port of a device. -/
def adsPortValid (port : Int) : Bool := 0 < port && port ≤ 0xFFFF

/-- A device can be made for the group, when the library is there. -/
def TagGroup.adsReachable (g : TagGroup V) (env : AdsEnv) : Bool :=
  adsPortValid (env.toInt g.cpu) && env.netIdValid g.path &&
    env.connects g.gateway g.path (env.toInt g.cpu)

/-- A tag as a new device finds it. -/
def AdsTagEntry.reset (tag : AdsTagEntry) : AdsTagEntry :=
  { tag with handle := none, initialized := false }

/-- The object with a device just made, or with none: its tags are to be looked up again. -/
def AdsTagGroupImpl.anew (impl : AdsTagGroupImpl) (client : Bool) : AdsTagGroupImpl :=
  { impl with client := client, tags := impl.tags.map fun _ tag => tag.reset }

/-- `init_ads_device`. -/
def Visit.initAdsDevice (env : AdsEnv) (v : Visit V) : Bool × Visit V :=
  if !env.dllAvailable then (false, v)
  else
    let (impl, v) := v.ads
    let port := env.toInt v.group.cpu
    let ok := adsPortValid port && env.netIdValid v.group.path &&
      env.connects v.group.gateway v.group.path port
    (ok, v.withGroup { v.group with adsImpl := some (impl.anew ok) })

/-- `init_ads_tag`, without the count. A symbol of size 0 is a BOOL, and takes a byte. -/
def initAdsTag (env : AdsEnv) (tagName : CStr) (tag : AdsTagEntry) : Bool × AdsTagEntry :=
  match env.symbolSize tagName with
  | none => (false, tag)
  | some size =>
    let size := if 0 < size then size else 1
    let tag := { tag with size := size, value := List.replicate size 0 }
    match env.getHandle tagName with
    | none => (false, tag)
    | some handle => (true, { tag with handle := some handle, initialized := true })

/-- A tag is read, if it has a handle. A read that fails or is short sets `has_error`. -/
def readAdsTag (env : AdsEnv) (tag : AdsTagEntry) (counted : Nat) :
    Swept AdsTagEntry (Effect V) :=
  match tag.handle with
  | none => { entry := tag, out := { counted := counted } }
  | some handle =>
    match env.read handle tag.size with
    | none => { entry := tag, out := { counted := counted, failed := true }, goes := false }
    | some bytes =>
      let tag := { tag with value := bytes ++ tag.value.drop bytes.length }
      if bytes.length = tag.size then
        { entry := { tag with dirty := false }, out := { counted := counted } }
      else { entry := tag, out := { counted := counted, failed := true }, goes := false }

/-- A tag's turn in `process_ads_tag_group`. -/
def pollAdsTag (env : AdsEnv) (tagName : CStr) (tag : AdsTagEntry) :
    Swept AdsTagEntry (Effect V) :=
  if tag.initialized then readAdsTag env tag 0
  else
    match initAdsTag env tagName tag with
    | (false, tag) => { entry := tag, out := { failed := true }, goes := false }
    | (true, tag) => readAdsTag env tag 1

/-- The tags of a group whose device is connected. -/
def Visit.pollAdsTags (env : AdsEnv) (impl : AdsTagGroupImpl) (v : Visit V) : Visit V :=
  let s := sweep (pollAdsTag env) impl.tags
  (v.withGroup { v.group with adsImpl := some { impl with tags := s.entries } }).absorb s.outs

/-- `process_ads_tag_group`. -/
def Visit.processAdsTagGroup (env : AdsEnv) (v : Visit V) : Visit V :=
  let (connected, v) := if v.group.adsDeviceConnected then (true, v) else v.initAdsDevice env
  match v.group.adsImpl with
  | some impl => if connected then v.pollAdsTags env impl else v
  | none => v

/-- A poll finds the device connected; or it tries to make one, and goes on if it could. Nothing is
tried without the library. -/
theorem processAdsTagGroup_cases (env : AdsEnv) (v : Visit V) :
    (∃ impl, v.group.adsImpl = some impl ∧ impl.client = true ∧
      v.processAdsTagGroup env = v.pollAdsTags env impl) ∨
    v.group.adsDeviceConnected = false ∧
      (env.dllAvailable = false ∧ v.processAdsTagGroup env = v ∨
        ∃ ok v', ok = v.group.adsReachable env ∧
          v' = v.ads.2.withGroup { v.ads.2.group with adsImpl := some (v.ads.1.anew ok) } ∧
          v.processAdsTagGroup env = if ok then v'.pollAdsTags env (v.ads.1.anew ok) else v') := by
  unfold Visit.processAdsTagGroup
  cases hconnected : v.group.adsDeviceConnected with
  | true =>
    obtain ⟨impl, himpl, hclient⟩ := (Option.any_eq_true _ _).mp hconnected
    refine .inl ⟨impl, himpl, hclient, ?_⟩
    simp only [if_true, himpl]
  | false =>
    refine .inr ⟨rfl, ?_⟩
    simp only [Bool.false_eq_true, if_false]
    unfold Visit.initAdsDevice
    cases env.dllAvailable with
    | false =>
      refine .inl ⟨rfl, ?_⟩
      simp only [Bool.not_false, Bool.false_eq_true, if_true, if_false]
      split <;> rfl
    | true =>
      simp only [Bool.not_true, Bool.false_eq_true, if_false]
      exact .inr ⟨_, _, rfl, rfl, rfl⟩

theorem Visit.processAdsTagGroup_group (env : AdsEnv) (v : Visit V) :
    ∃ adsImpl initCount hasError, (v.processAdsTagGroup env).group =
      { v.group with adsImpl := adsImpl, initCount := initCount, hasError := hasError } := by
  rcases processAdsTagGroup_cases env v with
    ⟨impl, -, -, hpoll⟩ | ⟨-, ⟨-, hpoll⟩ | ⟨ok, v', -, rfl, hpoll⟩⟩
  · rw [hpoll]
    exact ⟨_, _, _, rfl⟩
  · rw [hpoll]
    exact ⟨_, _, _, rfl⟩
  · rw [hpoll]
    split
    · exact ⟨_, _, _, rfl⟩
    · exact ⟨_, _, _, rfl⟩

/-! ## A turn -/

theorem readAdsTag_entry (env : AdsEnv) (tag : AdsTagEntry) (counted : Nat) :
    (readAdsTag env tag counted : Swept AdsTagEntry (Effect V)).entry.initialized =
        tag.initialized ∧
      (readAdsTag env tag counted : Swept AdsTagEntry (Effect V)).out.counted = counted ∧
      (readAdsTag env tag counted : Swept AdsTagEntry (Effect V)).out.calls = [] ∧
      (readAdsTag env tag counted : Swept AdsTagEntry (Effect V)).out.failed =
        !(readAdsTag env tag counted : Swept AdsTagEntry (Effect V)).goes := by
  unfold readAdsTag
  cases tag.handle with
  | none => exact ⟨rfl, rfl, rfl, rfl⟩
  | some handle =>
    simp only
    cases env.read handle tag.size with
    | none => exact ⟨rfl, rfl, rfl, rfl⟩
    | some bytes =>
      simp only
      split <;> exact ⟨rfl, rfl, rfl, rfl⟩

theorem initAdsTag_entry (env : AdsEnv) (tagName : CStr) {tag : AdsTagEntry}
    (h : tag.initialized = false) :
    (initAdsTag env tagName tag).2.initialized = (initAdsTag env tagName tag).1 := by
  unfold initAdsTag
  cases env.symbolSize tagName with
  | none => exact h
  | some size =>
    simp only
    cases env.getHandle tagName with
    | none => exact h
    | some handle => rfl

/-- What is known of a turn: it counts the tag if it becomes initialised, makes no call that is
kept, and ends the sweep by setting `has_error`. -/
structure AdsTurn (tag : AdsTagEntry) (r : Swept AdsTagEntry (Effect V)) : Prop where
  counts : (if tag.initialized then 1 else 0) + r.out.counted =
    if r.entry.initialized then 1 else 0
  calls : r.out.calls = []
  ends : r.out.failed = !r.goes
  initializes : r.goes = true → r.entry.initialized = true

theorem pollAdsTag_turn (env : AdsEnv) (tagName : CStr) (tag : AdsTagEntry) :
    AdsTurn tag (pollAdsTag env tagName tag : Swept AdsTagEntry (Effect V)) := by
  unfold pollAdsTag
  cases hinitialized : tag.initialized with
  | true =>
    obtain ⟨hentry, hcounted, hcalls, hends⟩ := readAdsTag_entry (V := V) env tag 0
    rw [if_pos rfl]
    refine ⟨?_, hcalls, hends, fun _ => hentry.trans hinitialized⟩
    rw [hcounted, hentry, Nat.add_zero]
  | false =>
    have hinit := initAdsTag_entry env tagName hinitialized
    simp only [Bool.false_eq_true, if_false]
    cases hresult : initAdsTag env tagName tag with
    | mk ok tag' =>
      rw [hresult] at hinit
      cases ok with
      | false =>
        have hinit : tag'.initialized = false := hinit
        refine ⟨?_, rfl, rfl, fun hgoes => nomatch hgoes⟩
        simp only [hinitialized, hinit, Nat.add_zero]
      | true =>
        have hinit : tag'.initialized = true := hinit
        obtain ⟨hentry, hcounted, hcalls, hends⟩ := readAdsTag_entry (V := V) env tag' 1
        refine ⟨?_, hcalls, hends, fun _ => hentry.trans hinit⟩
        simp only [hcounted, hentry, hinitialized, hinit, Bool.false_eq_true, if_false, if_true]

end OipComms.Backend
