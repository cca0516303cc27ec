import OipComms.Lib.Run
import OipComms.Rtde.Session

/-!
# The input recipe

The main program writes tags one at a time; each write is packed into the input payload, and the
whole payload goes to the controller. So a package carries, for every tag, what was last written to
it, unless a write to an overlapping tag came later, and a read of the tag gives that value back.

`input_recipe_agrees` says it of every session that starts, every registration and every sequence
of writes, against the layout of the recipe the controller granted.
-/

namespace OipComms.Rtde

open BigEndian Slice Run

variable {V : Type} [GodotVariant V] {B : Type} [ReadAs B]
  {connect : CStr → Except String Socket} {g : TagGroup}

/-- One write of a history. -/
def writeStep (g : TagGroup) (w : CStr × V) : TagGroup := rtdeTagSet w.1 w.2 g

/-- The payload of the recipe a tag belongs to. -/
def RtdeTagGroupImpl.payload (impl : RtdeTagGroupImpl) (isInput : Bool) : List UInt8 :=
  if isInput then impl.inputPayload else impl.outputPayload

/-- A write goes to an input tag that overlaps `e`. -/
def Hits (tags : TagMap) (w : CStr × V) (e : RtdeTagEntry) : Prop :=
  ∃ e', tags[w.1]? = some e' ∧ e'.isInput = true ∧ Overlaps e' e

/-- The value the tag `name` holds after a history: the last one written to it, cast to its field,
or zero, when no write to an overlapping tag came after. -/
def LastWritten (tags : TagMap) (name : CStr) (e : RtdeTagEntry) (writes : List (CStr × V))
    (s : Scalar) : Prop :=
  (∃ front value back, writes = front ++ (name, value) :: back ∧ (∀ w ∈ back, ¬ Hits tags w e) ∧
    s = storeField e.baseType e.hasBrackets value) ∨
  ((∀ w ∈ writes, ¬ Hits tags w e) ∧ s = zeroField e.baseType e.hasBrackets)

/-- A payload differs from an older one in the bytes of `e` only, or in its one bit. -/
def ChangesOnly (e : RtdeTagEntry) (old new : List UInt8) : Prop :=
  new.length = old.length ∧
  (∀ i, i < e.byteOffset ∨ e.byteOffset + e.accessSize ≤ i → new[i]? = old[i]?) ∧
  (e.isBitIndexed = true → ∀ j, j ≠ e.elementIndex.toNat →
    (ofBE (slice new e.byteOffset e.accessSize)).testBit j =
      (ofBE (slice old e.byteOffset e.accessSize)).testBit j)

/-! ## One write -/

variable {hs : Handshake connect g} {g' : TagGroup} {impl : RtdeTagGroupImpl}

/-- An input tag has a name, and a type a package can carry. -/
theorem Handshake.Ready.input {name : CStr} {e : RtdeTagEntry} (h : hs.Ready name e)
    (hinput : e.isInput = true) :
    inputNames g ≠ [] ∧ ∃ off ft, Placed (offsetTable 0 (inputNames g) hs.inputs.types) e off ft ∧
      ft.Concrete ∧ off + fieldSize ft ≤ hs.inputRecipe.size := by
  obtain ⟨off, ft, hplaced, hend⟩ := h.fits
  rw [hinput] at hplaced hend
  have hbase : e.baseName ≠ [] := by
    intro hnil
    have hname := h.fromName.isInput
    rw [hinput, hnil] at hname
    cases hname
  refine ⟨fun hnone => ?_, off, ft, hplaced, hs.concrete hplaced.lookup hbase, hend⟩
  have hlookup := hplaced.lookup
  rw [Handshake.table, if_pos rfl, hnone] at hlookup
  cases hlookup

/-- What a write packs, while the session is served. -/
theorem Handshake.Serving.inputPackage_eq (h : hs.Serving g' impl) (name : CStr) (value : V) :
    inputPackage g' name value = impl.tags[name]?.bind fun e =>
      if e.isInput && e.initialized then e.encode impl.inputPayload value else none := by
  rw [inputPackage, h.sessionStarted, Bool.not_true, if_neg Bool.false_ne_true, h.rtdeImpl]
  simp only [h.inputRecipeSetup]
  cases htag : impl.tags[name]? with
  | none => simp only [Option.bind_none, ite_self]
  | some e =>
    simp only [Option.bind_some]
    cases hinput : e.isInput with
    | false =>
      simp only [Bool.not_false, Bool.true_or, if_true, Bool.false_and, Bool.false_eq_true,
        if_false, ite_self]
    | true =>
      cases hinit : e.initialized with
      | false =>
        simp only [Bool.not_true, Bool.not_false, Bool.or_true, if_true, Bool.and_false,
          Bool.false_eq_true, if_false, ite_self]
      | true =>
        have hne := ((h.tags name e htag hinit).input hinput).1
        simp only [hne, ne_eq, not_false_eq_true, decide_true, Bool.not_true, Bool.false_eq_true,
          if_false, Bool.or_self, Bool.and_self, if_true]

/-- A packed payload comes from an input tag in its place. -/
theorem Handshake.Serving.packed (h : hs.Serving g' impl) {name : CStr} {value : V}
    {payload : List UInt8} (hpackage : inputPackage g' name value = some payload) :
    ∃ e, impl.tags[name]? = some e ∧ e.isInput = true ∧ e.initialized = true ∧
      hs.Ready name e ∧ e.encode impl.inputPayload value = some payload := by
  rw [h.inputPackage_eq] at hpackage
  obtain ⟨e, htag, hencode⟩ := Option.bind_eq_some_iff.mp hpackage
  by_cases hcan : (e.isInput && e.initialized) = true
  · rw [if_pos hcan] at hencode
    obtain ⟨hinput, hinit⟩ := Bool.and_eq_true_iff.mp hcan
    exact ⟨e, htag, hinput, hinit, h.tags name e htag hinit, hencode⟩
  · rw [if_neg hcan] at hencode
    cases hencode

/-- A write keeps the session served; it changes the input payload by what it packs, and nothing
else of what tags are read from. -/
theorem Handshake.Serving.write (h : hs.Serving g' impl) (w : CStr × V) :
    ∃ impl', hs.Serving (writeStep g' w) impl' ∧ impl'.tags = impl.tags ∧
      impl'.inputPayload = (inputPackage g' w.1 w.2).getD impl.inputPayload ∧
      impl'.outputPayload = impl.outputPayload ∧ impl'.haveOutputData = impl.haveOutputData := by
  unfold writeStep rtdeTagSet
  cases hpackage : inputPackage g' w.1 w.2 with
  | none => exact ⟨impl, h, rfl, rfl, rfl, rfl⟩
  | some payload =>
    obtain ⟨e, _, hinput, _, hready, hencode⟩ := h.packed hpackage
    obtain ⟨_, off, ft, hplaced, hft, hend⟩ := hready.input hinput
    have hlen := (hplaced.scalar_encode hft (by rw [h.inputLength]; exact hend) hencode).1
    obtain ⟨c, s, hclient, hsocket⟩ := h.isOpen
    have hsome : ((c.sendInput impl.inputRecipeId payload).2).socket.isSome = true := by
      rw [Client.sendInput, sendFrame_socket, hsocket]
      rfl
    obtain ⟨s', hs'⟩ := Option.isSome_iff_exists.mp hsome
    simp only [h.rtdeImpl, hclient, Option.getD_some]
    exact ⟨_, ⟨rfl, h.hasError, ⟨_, s', rfl, hs'⟩, h.started, h.tags, h.inputRecipeSetup,
      h.inputRecipeId, h.outputRecipeId, hlen.trans h.inputLength, h.outputLength⟩, rfl, rfl, rfl, rfl⟩

/-- A write to an input tag packs a payload in which the tag denotes the value. -/
theorem Handshake.Serving.packs (h : hs.Serving g' impl) {name : CStr} {e : RtdeTagEntry}
    (htag : impl.tags[name]? = some e) (hready : hs.Ready name e) (hinput : e.isInput = true)
    (value : V) :
    ∃ payload, inputPackage g' name value = some payload ∧
      e.scalar payload = storeField e.baseType e.hasBrackets value := by
  obtain ⟨_, off, ft, hplaced, hft, hend⟩ := hready.input hinput
  have hlen : off + fieldSize ft ≤ impl.inputPayload.length := by
    rw [h.inputLength]
    exact hend
  obtain ⟨bytes, hencode, _⟩ := hplaced.encode_eq hft hlen value
  refine ⟨overwrite impl.inputPayload e.byteOffset bytes, ?_, ?_⟩
  · rw [h.inputPackage_eq, htag, Option.bind_some, hinput, hready.initialized]
    exact hencode
  · rw [hplaced.baseType]
    exact (hplaced.scalar_encode hft hlen hencode).2

/-- A write hands what it packs to `send_input`, with the id of the session's recipe. -/
theorem Handshake.Serving.hands (h : hs.Serving g' impl) {name : CStr} {value : V}
    {payload : List UInt8} (hpackage : inputPackage g' name value = some payload) :
    ∃ recipeId c, hs.inputs.recipeId = some recipeId ∧ impl.client = some c ∧
      (writeStep g' (name, value)).rtdeImpl = some { impl with
        inputPayload := payload, client := some (c.sendInput recipeId payload).2 } := by
  obtain ⟨e, _, hinput, _, hready, _⟩ := h.packed hpackage
  obtain ⟨c, s, hclient, hsocket⟩ := h.isOpen
  refine ⟨_, c, hs.recipeId_eq (hready.input hinput).1, hclient, ?_⟩
  rw [writeStep, rtdeTagSet, hpackage]
  simp only [h.rtdeImpl, hclient, Option.getD_some, h.inputRecipeId]

/-- A write to anything else is dropped. -/
theorem Handshake.Serving.drops (h : hs.Serving g' impl) {name : CStr}
    (hno : ∀ e, impl.tags[name]? = some e → e.isInput = false) (value : V) :
    writeStep g' (name, value) = g' := by
  have hpackage : inputPackage g' name value = none := by
    rw [h.inputPackage_eq]
    cases htag : impl.tags[name]? with
    | none => rfl
    | some e =>
      rw [Option.bind_some, hno e htag]
      rfl
  rw [writeStep, rtdeTagSet, hpackage]

/-- A packed payload differs in the tag's own bytes only, or in its own bit. -/
theorem Handshake.Serving.changesOnly (h : hs.Serving g' impl) {name : CStr} {value : V}
    {payload : List UInt8} (hpackage : inputPackage g' name value = some payload) :
    ∃ e, impl.tags[name]? = some e ∧ ChangesOnly e impl.inputPayload payload := by
  obtain ⟨e, htag, hinput, _, hready, hencode⟩ := h.packed hpackage
  obtain ⟨_, off, ft, hplaced, hft, hend⟩ := hready.input hinput
  have hlen : off + fieldSize ft ≤ impl.inputPayload.length := by
    rw [h.inputLength]
    exact hend
  obtain ⟨bytes, heq, hsize, _, hbits⟩ := hplaced.encode_eq hft hlen value
  have haccess := hplaced.access
  rw [heq] at hencode
  obtain rfl := Option.some.inj hencode
  refine ⟨e, htag, length_overwrite (by omega), fun i hi => ?_, fun hbit j hj => ?_⟩
  · rw [getElem?_overwrite (by omega), if_neg (by omega)]
  · have hself : slice (overwrite impl.inputPayload e.byteOffset bytes) e.byteOffset e.accessSize =
        bytes := by
      rw [← hsize]
      exact slice_overwrite_self (by omega)
    have hin : (slice impl.inputPayload e.byteOffset e.accessSize).length = e.accessSize := by
      rw [length_slice]
      omega
    rw [hself]
    by_cases hrange : j < 8 * e.accessSize
    · rw [(hbits hbit).2 j hrange, if_neg hj]
    · -- past the integer both are zero
      have hpow : 256 ^ e.accessSize ≤ 2 ^ j := by
        rw [show (256 : Nat) = 2 ^ 8 from rfl, ← Nat.pow_mul]
        exact Nat.pow_le_pow_right (by omega) (by omega)
      have hnew := ofBE_lt bytes
      have hold := ofBE_lt (slice impl.inputPayload e.byteOffset e.accessSize)
      rw [hsize] at hnew
      rw [hin] at hold
      rw [Nat.testBit_lt_two_pow (by omega), Nat.testBit_lt_two_pow (by omega)]

/-! ## Every history -/

/-- The session is served, and its tags are those of the handshake. -/
def Handshake.Writing (hs : Handshake connect g) (g' : TagGroup) : Prop :=
  ∃ impl, hs.Serving g' impl ∧ impl.tags = hs.impl.tags

theorem Handshake.Writing.step (h : hs.Writing g') (w : CStr × V) : hs.Writing (writeStep g' w) := by
  obtain ⟨impl, hserving, htags⟩ := h
  obtain ⟨impl', hserving', htags', _⟩ := hserving.write w
  exact ⟨impl', hserving', htags'.trans htags⟩

/-- The input payload of a group. -/
def inputPayloadOf (g : TagGroup) : List UInt8 := (g.rtdeImpl.getD {}).inputPayload

theorem Handshake.Serving.inputPayloadOf_eq (h : hs.Serving g' impl) :
    inputPayloadOf g' = impl.inputPayload := by
  rw [inputPayloadOf, h.rtdeImpl]
  rfl

/-- A write that hits no tag over `e` leaves what `e` denotes. -/
theorem Handshake.Writing.scalar_keeps (h : hs.Writing g') {w : CStr × V} {name : CStr}
    {e : RtdeTagEntry} (he : hs.Ready name e) (hinput : e.isInput = true)
    (hmiss : ¬ Hits hs.impl.tags w e) :
    e.scalar (inputPayloadOf (writeStep g' w)) = e.scalar (inputPayloadOf g') := by
  obtain ⟨impl, hserving, htags⟩ := h
  obtain ⟨impl', hserving', _, hpayload, _⟩ := hserving.write w
  rw [hserving'.inputPayloadOf_eq, hserving.inputPayloadOf_eq, hpayload]
  cases hpackage : inputPackage g' w.1 w.2 with
  | none => rfl
  | some payload =>
    obtain ⟨e', htag, hinput', _, hready, hencode⟩ := hserving.packed hpackage
    obtain ⟨_, off', ft', hplaced', hft', hend'⟩ := hready.input hinput'
    obtain ⟨_, off, ft, hplaced, _, _⟩ := he.input hinput
    rw [htags] at htag
    have hapart : ¬ Overlaps e' e := fun hover => hmiss ⟨e', htag, hinput', hover⟩
    exact hplaced'.scalar_frame hplaced hapart hft' (by rw [hserving.inputLength]; exact hend') hencode

/-- After a write to `name` its tag denotes the value written. -/
theorem Handshake.Writing.scalar_write (h : hs.Writing g') {name : CStr} (value : V)
    {e : RtdeTagEntry} (htag : hs.impl.tags[name]? = some e) (he : hs.Ready name e)
    (hinput : e.isInput = true) :
    e.scalar (inputPayloadOf (writeStep g' (name, value))) =
      storeField e.baseType e.hasBrackets value := by
  obtain ⟨impl, hserving, htags⟩ := h
  obtain ⟨impl', hserving', _, hpayload, _⟩ := hserving.write (name, value)
  obtain ⟨payload, hpackage, hscalar⟩ := hserving.packs (htags ▸ htag) he hinput value
  rw [hserving'.inputPayloadOf_eq, hpayload, hpackage, Option.getD_some]
  exact hscalar

/-- Before any write every input tag denotes zero. -/
theorem Handshake.scalar_start (hs : Handshake connect g) {name : CStr} {e : RtdeTagEntry}
    (he : hs.Ready name e) (hinput : e.isInput = true) :
    e.scalar (inputPayloadOf hs.group) = zeroField e.baseType e.hasBrackets := by
  obtain ⟨_, off, ft, hplaced, _, hend⟩ := he.input hinput
  have haccess := hplaced.access
  have hpayload : inputPayloadOf hs.group = List.replicate (payloadSize hs.inputs.types) 0 := rfl
  have hslice : ∀ n, off ≤ e.byteOffset → e.byteOffset + n ≤ off + fieldSize ft →
      slice (inputPayloadOf hs.group) e.byteOffset n = List.replicate n 0 := by
    intro n _ hn
    have hlen := hs.payload_lengths.1
    rw [show hs.impl.inputPayload = inputPayloadOf hs.group from rfl, hpayload,
      List.length_replicate] at hlen
    rw [hpayload, slice, List.drop_replicate, List.take_replicate, Nat.min_eq_left (by omega)]
  have hboth := hplaced.bitIndexed
  unfold RtdeTagEntry.accessSize at haccess
  cases hbit : e.isBitIndexed with
  | true =>
    rw [hbit] at hboth
    rw [hbit, if_pos rfl] at haccess
    rw [RtdeTagEntry.scalar, hbit, if_pos rfl, hslice _ haccess.1 haccess.2, ofBE_replicate_zero,
      zeroField, hplaced.baseType, ← hboth, if_pos rfl, Nat.zero_testBit]
  | false =>
    rw [hbit] at hboth
    rw [hbit, if_neg Bool.false_ne_true] at haccess
    obtain ⟨_, hscalar, _⟩ := hplaced.scalar hbit
    rw [RtdeTagEntry.scalar, hbit, if_neg Bool.false_ne_true, hslice _ haccess.1 haccess.2,
      decodeScalar_zeros, zeroField, hplaced.baseType, ← hboth, if_neg Bool.false_ne_true, hscalar]

theorem run_writing {g₀ : TagGroup} (h : hs.Writing g₀) (writes : List (CStr × V)) :
    hs.Writing (run writeStep g₀ writes) :=
  run_of_invariant writeStep (fun _ w h => h.step w) h writes

/-- What an input tag denotes after a history is what was last written to it. -/
theorem scalar_of_lastWritten (hfresh : g.Fresh) {name : CStr} {e : RtdeTagEntry}
    (htag : hs.impl.tags[name]? = some e) (hinput : e.isInput = true) {writes : List (CStr × V)}
    {s : Scalar} (hlast : LastWritten hs.impl.tags name e writes s) :
    e.scalar (inputPayloadOf (run writeStep hs.group writes)) = s := by
  have he := hs.ready hfresh htag
  have hstart : hs.Writing hs.group := ⟨hs.impl, hs.serving hfresh, rfl⟩
  have hkeeps : ∀ (ops : List (CStr × V)) (g₀ : TagGroup), hs.Writing g₀ →
      (∀ w ∈ ops, ¬ Hits hs.impl.tags w e) →
      e.scalar (inputPayloadOf (run writeStep g₀ ops)) = e.scalar (inputPayloadOf g₀) := by
    intro ops g₀ h₀ hmiss
    exact view_of_keeps writeStep (fun g => e.scalar (inputPayloadOf g)) (fun _ w h => h.step w)
      (fun _ h w hw => h.scalar_keeps he hinput (hmiss w hw)) h₀
  rcases hlast with ⟨front, value, back, rfl, hmiss, rfl⟩ | ⟨hmiss, rfl⟩
  · have hfront := run_writing hstart front
    rw [run_append, run_cons, hkeeps back _ (hfront.step (name, value)) hmiss]
    exact hfront.scalar_write value htag he hinput
  · rw [hkeeps writes _ hstart hmiss]
    exact hs.scalar_start he hinput

/-- In every session that starts, after every history of writes: the tags lie in their payloads; a
write to an input tag changes its own bytes or its own bit only, and hands to `send_input`, with the
id of the session's recipe, a payload that carries, by the layout of the recipe, what was last
written to every tag; a write to anything else changes nothing; and a read gives back what was last
written. -/
theorem input_recipe_agrees (pollingInterval : Int) (gateway : CStr) (names : List CStr)
    {g' : TagGroup} (hinit : initRtdeSession connect (registered pollingInterval gateway names) =
      (true, g')) :
    ∃ hs : Handshake connect (registered pollingInterval gateway names), g' = hs.group ∧
      (∀ name, name ∈ hs.impl.tags ↔
        name ∈ ((registered pollingInterval gateway names).rtdeImpl.getD {}).tags) ∧
      ∀ writes : List (CStr × V), ∃ impl,
        (run writeStep g' writes).rtdeImpl = some impl ∧ impl.tags = hs.impl.tags ∧
        impl.inputPayload.length = hs.inputRecipe.size ∧
        impl.outputPayload.length = hs.outputRecipe.size ∧
        (∀ (name : CStr) (e : RtdeTagEntry), hs.impl.tags[name]? = some e →
          e.byteOffset + e.accessSize ≤ (impl.payload e.isInput).length) ∧
        (∀ (w : CStr × V) (e : RtdeTagEntry), hs.impl.tags[w.1]? = some e → e.isInput = true →
          ∃ recipeId c payload, hs.inputs.recipeId = some recipeId ∧ impl.client = some c ∧
            (writeStep (run writeStep g' writes) w).rtdeImpl = some { impl with
              inputPayload := payload, client := some (c.sendInput recipeId payload).2 } ∧
            ChangesOnly e impl.inputPayload payload ∧
            ∀ (name : CStr) (e' : RtdeTagEntry) s, hs.impl.tags[name]? = some e' →
              e'.isInput = true → LastWritten hs.impl.tags name e' (writes ++ [w]) s →
              hs.inputRecipe.read payload e'.baseName e'.elementIndex.toNat e'.hasBrackets =
                some s) ∧
        (∀ w : CStr × V, (∀ e, hs.impl.tags[w.1]? = some e → e.isInput = false) →
          writeStep (run writeStep g' writes) w = run writeStep g' writes) ∧
        ∀ (name : CStr) (e : RtdeTagEntry) s, hs.impl.tags[name]? = some e → e.isInput = true →
          LastWritten hs.impl.tags name e writes s →
          (rtdeRead (run writeStep g' writes) name : B) = s.cast := by
  have hfresh := registered_fresh pollingInterval gateway names
  obtain ⟨hs, rfl⟩ := initRtdeSession_eq_true hinit
  refine ⟨hs, rfl, hs.mem_tags, fun writes => ?_⟩
  have hstart : hs.Writing hs.group := ⟨hs.impl, hs.serving hfresh, rfl⟩
  obtain ⟨impl, hserving, htags⟩ := run_writing hstart writes
  refine ⟨impl, hserving.rtdeImpl, htags, hserving.inputLength, hserving.outputLength,
    ?inside, ?handed, ?dropped, ?read⟩
  case inside =>
    intro name e htag
    obtain ⟨off, ft, hplaced, hend⟩ := (hs.ready hfresh htag).fits
    have haccess := hplaced.access
    cases hin : e.isInput with
    | true =>
      rw [hin, Handshake.recipe, if_pos rfl] at hend
      rw [RtdeTagGroupImpl.payload, if_pos rfl, hserving.inputLength]
      omega
    | false =>
      rw [hin, Handshake.recipe, if_neg Bool.false_ne_true] at hend
      rw [RtdeTagGroupImpl.payload, if_neg Bool.false_ne_true, hserving.outputLength]
      omega
  case handed =>
    rintro ⟨target, value⟩ e htag hinput
    have hready := hs.ready hfresh htag
    rw [← htags] at htag
    obtain ⟨payload, hpackage, -⟩ := hserving.packs htag hready hinput value
    obtain ⟨recipeId, c, hid, hclient, hwritten⟩ := hserving.hands hpackage
    refine ⟨recipeId, c, payload, hid, hclient, hwritten, ?_, ?_⟩
    · obtain ⟨e', htag', hchanges⟩ := hserving.changesOnly hpackage
      obtain rfl := Option.some.inj (htag.symm.trans htag')
      exact hchanges
    · intro name e' s htag' hinput' hlast
      obtain ⟨_, off, ft, hplaced, _, _⟩ := (hs.ready hfresh htag').input hinput'
      have hscalar := scalar_of_lastWritten hfresh htag' hinput' hlast
      rw [run_concat, inputPayloadOf, hwritten, Option.getD_some] at hscalar
      rw [Handshake.inputRecipe, hplaced.read_eq, hscalar]
  case dropped =>
    rintro ⟨target, value⟩ hno
    exact hserving.drops (htags ▸ hno) value
  case read =>
    intro name e s htag hinput hlast
    have he := hs.ready hfresh htag
    obtain ⟨_, off, ft, hplaced, _, hend⟩ := he.input hinput
    have hscalar := scalar_of_lastWritten hfresh htag hinput hlast
    rw [hserving.inputPayloadOf_eq] at hscalar
    rw [rtdeRead, hserving.rtdeImpl]
    simp only [htags, htag, hserving.hasError, he.initialized, hinput, Bool.not_true, Bool.or_self,
      Bool.false_eq_true, if_false, if_true]
    rw [hplaced.read_cast (by rw [hserving.inputLength]; exact hend), hscalar]

/-- A bit written to a session is read back. -/
theorem written_bit_read_back :
    let start := initRtdeSession (fun _ => .ok (cellSocket [])) cellGroup
    (rtdeRead (run writeStep start.2 [("input_bit_register_64".toList, true)])
      "input_bit_register_64".toList : Bool) = true := by
  intro start
  obtain ⟨hs, hgroup, _, hall⟩ := input_recipe_agrees (V := Bool) (B := Bool) 0 []
    ["timestamp".toList, "input_bit_register_64".toList]
    (show _ = (true, start.2) from Prod.ext (show start.1 = true by decide) rfl)
  obtain ⟨_, _, _, _, _, _, _, _, hread⟩ := hall [("input_bit_register_64".toList, true)]
  have htag : (start.2.rtdeImpl.getD {}).tags["input_bit_register_64".toList]? =
      some { initialized := true, baseName := "input_bit_register_64".toList, isInput := true,
             baseType := .bool, scalarType := .bool } := by
    decide
  rw [hgroup] at htag
  exact hread _ _ (.bool true) htag rfl
    (.inl ⟨[], true, [], rfl, fun _ h => (List.not_mem_nil h).elim, rfl⟩)

end OipComms.Rtde
