import OipComms.Rtde.Input

/-!
# The output recipe

A controller's data package is its variables' values, one behind the other in the order the names
were sent in. `Recipe.encode` lays them out; once `process_rtde_tag_group` has taken such a package,
every initialised output tag reads the value of its variable, its element or its bit, until the next
package is taken. A package of another recipe or of another length changes nothing.

`output_recipe_agrees` says it of every session that starts, and in every state that writes,
registrations and polls can bring it to.
-/

namespace OipComms.Rtde

open BigEndian Slice Run

/-! ## What the controller sends -/

/-- A scalar that a field of a scalar type can carry. -/
def Scalar.Fits : FieldType → Scalar → Prop
  | .bool, .bool _ => True
  | .uint8, .int i => 0 ≤ i ∧ i < 256
  | .uint32, .int i => 0 ≤ i ∧ i < 4294967296
  | .uint64, .int i => 0 ≤ i ∧ i < 18446744073709551616
  | .int32, .int i => -2147483648 ≤ i ∧ i < 2147483648
  | .double, .double _ => True
  | _, _ => False

/-- The bytes of a scalar in a field of a scalar type. -/
def encodeScalar : FieldType → Scalar → List UInt8
  | .bool, .bool b => [if b then 1 else 0]
  | .uint8, .int i => toBE 1 i.toNat
  | .uint32, .int i => toBE 4 i.toNat
  | .uint64, .int i => toBE 8 i.toNat
  | .int32, .int i => toBE 4 (i % 4294967296).toNat
  | .double, .double bits => toBE 8 bits.toNat
  | _, _ => []

/-- The values of the variables, by name and element. -/
abbrev Values := CStr → Nat → Scalar

/-- A variable's elements, one behind the other. -/
def encodeField (ft : FieldType) (elements : Nat → Scalar) : List UInt8 :=
  (List.range (fieldArity ft).toNat).flatMap fun i => encodeScalar (fieldElementType ft) (elements i)

/-- A data package of a recipe. -/
def Recipe.encode (r : Recipe) (vals : Values) : List UInt8 :=
  r.flatMap fun p => encodeField p.2 (vals p.1)

/-- Every element of every variable fits its field. -/
def Recipe.Fits (r : Recipe) (vals : Values) : Prop :=
  ∀ p ∈ r, ∀ i < (fieldArity p.2).toNat, (vals p.1 i).Fits (fieldElementType p.2)

/-- What a name with an index means under the values. -/
def Values.at (vals : Values) (ft : FieldType) (base : CStr) (idx : Nat) (brackets : Bool) : Scalar :=
  if brackets && unsignedIntScalar ft then
    match vals base 0 with
    | .int i => .bool (i.toNat.testBit idx)
    | s => s
  else vals base idx

/-- A scalar that fits fills its field and is read back from it. -/
theorem Scalar.Fits.encode {ft : FieldType} {s : Scalar} (h : s.Fits ft) :
    (encodeScalar ft s).length = fieldScalarSize ft ∧ decodeScalar ft (encodeScalar ft s) = s := by
  match ft, s, h with
  | .bool, .bool b, _ => cases b <;> exact ⟨rfl, rfl⟩
  | .uint8, .int i, ⟨hlo, hhi⟩ =>
    refine ⟨rfl, ?_⟩
    rw [encodeScalar, decodeScalar, ofBE_toBE_of_lt (by omega), Int.toNat_of_nonneg hlo]
  | .uint32, .int i, ⟨hlo, hhi⟩ =>
    refine ⟨rfl, ?_⟩
    rw [encodeScalar, decodeScalar, ofBE_toBE_of_lt (by omega), Int.toNat_of_nonneg hlo]
  | .uint64, .int i, ⟨hlo, hhi⟩ =>
    refine ⟨rfl, ?_⟩
    rw [encodeScalar, decodeScalar, ofBE_toBE_of_lt (by omega), Int.toNat_of_nonneg hlo]
  | .int32, .int i, ⟨hlo, hhi⟩ =>
    refine ⟨rfl, ?_⟩
    rw [encodeScalar, decodeScalar, ofBE_toBE_of_lt (by omega), Scalar.int.injEq]
    unfold int32
    omega
  | .double, .double bits, _ =>
    have hlt := bits.toNat_lt
    refine ⟨rfl, ?_⟩
    rw [encodeScalar, decodeScalar, ofBE_toBE_of_lt (by omega), UInt64.ofNat_toNat]

/-- The bytes of a variable: as many as its type takes, and each element where an index finds it. -/
theorem encodeField_spec {ft : FieldType} {elements : Nat → Scalar}
    (h : ∀ i < (fieldArity ft).toNat, (elements i).Fits (fieldElementType ft)) :
    (encodeField ft elements).length = fieldSize ft ∧
    ∀ i < (fieldArity ft).toNat, element ft (encodeField ft elements) i =
      encodeScalar (fieldElementType ft) (elements i) := by
  have hpieces : ∀ i < (fieldArity ft).toNat,
      (encodeScalar (fieldElementType ft) (elements i)).length = fieldScalarSize ft := by
    intro i hi
    rw [(h i hi).encode.1, fieldScalarSize_elementType]
  obtain ⟨hlen, helement⟩ := slice_flatMap_range hpieces
  refine ⟨?_, helement⟩
  rw [encodeField, hlen]
  cases ft <;> rfl

/-- A package finds every variable under its name. -/
theorem Recipe.field_encode {r : Recipe} {vals : Values} (h : r.Fits vals) {base : CStr}
    {ft : FieldType} (hlookup : r.lookup base = some ft) :
    r.field (r.encode vals) base = some (ft, encodeField ft (vals base)) := by
  induction r with
  | nil => cases hlookup
  | cons p r ih =>
    obtain ⟨name, t⟩ := p
    have hhead := (encodeField_spec (h (name, t) List.mem_cons_self)).1
    rw [List.lookup_cons] at hlookup
    rw [Recipe.encode, List.flatMap_cons, Recipe.field]
    by_cases hname : base = name
    · subst hname
      rw [BEq.rfl] at hlookup
      obtain rfl := Option.some.inj hlookup
      rw [if_pos rfl, ← hhead, List.take_left']
      rfl
    · rw [beq_false_of_ne hname] at hlookup
      rw [if_neg hname, ← hhead, List.drop_left']
      · exact ih (fun p hp => h p (List.mem_cons_of_mem _ hp)) hlookup
      · rfl

/-- The size of a package is the size of its recipe's payload. -/
theorem Recipe.length_encode {r : Recipe} {vals : Values} (h : r.Fits vals) :
    (r.encode vals).length = r.size := by
  induction r with
  | nil => rfl
  | cons p r ih =>
    have hhead := (encodeField_spec (h p List.mem_cons_self)).1
    have hrest := ih fun q hq => h q (List.mem_cons_of_mem _ hq)
    rw [Recipe.encode] at hrest
    rw [Recipe.encode, List.flatMap_cons, List.length_append, hhead, hrest, Recipe.size,
      Recipe.size, List.map_cons, List.sum_cons]

/-- A variable of a package read under a name with an index. -/
theorem readField_encodeField {ft : FieldType} {vals : Values} {base : CStr} {idx : Nat}
    {brackets : Bool} (h : ∀ i < (fieldArity ft).toNat, (vals base i).Fits (fieldElementType ft))
    (hidx : (brackets && unsignedIntScalar ft) = false → idx < (fieldArity ft).toNat) :
    readField ft (encodeField ft (vals base)) idx brackets = vals.at ft base idx brackets := by
  obtain ⟨hlen, helement⟩ := encodeField_spec h
  cases hbits : brackets && unsignedIntScalar ft with
  | false =>
    rw [readField, hbits, if_neg Bool.false_ne_true, helement idx (hidx hbits), Values.at, hbits,
      if_neg Bool.false_ne_true]
    exact (h idx (hidx hbits)).encode.2
  | true =>
    -- an unsigned integer is a variable of one element, the whole of its bytes
    have hunsigned := (Bool.and_eq_true_iff.mp hbits).2
    obtain ⟨hsize, hscalar, harity⟩ := fieldSize_of_unsigned hunsigned
    have hfits := h 0 (by rw [harity]; decide)
    have hwhole := helement 0 (by rw [harity]; decide)
    rw [element, Nat.zero_mul, slice, List.drop_zero, ← hsize, ← hlen, List.take_length,
      hscalar] at hwhole
    rw [hscalar] at hfits
    have hback := hfits.encode.2
    rw [readField, hbits, if_pos rfl, Values.at, hbits, if_pos rfl, hwhole]
    cases hvalue : vals base 0 with
    | int i =>
      rw [hvalue] at hback
      have hnat : ofBE (encodeScalar ft (.int i)) = i.toNat := by
        cases ft with
        | uint8 => exact congrArg Int.toNat (Scalar.int.inj hback)
        | uint32 => exact congrArg Int.toNat (Scalar.int.inj hback)
        | uint64 => exact congrArg Int.toNat (Scalar.int.inj hback)
        | _ => cases hunsigned
      rw [hnat]
    | bool b =>
      rw [hvalue] at hfits
      cases ft <;> first | exact False.elim hfits | cases hunsigned
    | double bits =>
      rw [hvalue] at hfits
      cases ft <;> first | exact False.elim hfits | cases hunsigned

/-! ## One step of a session -/

variable {V : Type} [GodotVariant V] {B : Type} [ReadAs B]
  {connect : CStr → Except String Socket} {g : TagGroup}

/-- `process_tag_group`, on an RTDE group. -/
def processTagGroup (connect : CStr → Except String Socket) (g : TagGroup) : TagGroup :=
  if g.hasError then g else processRtdeTagGroup connect g

/-- What is called on a group while its session runs. -/
inductive SessionCall (V : Type)
  | write (tagName : CStr) (value : V)
  | registerTag (tagName : CStr)
  | process
  deriving DecidableEq, Repr

/-- One call on a group. -/
def callStep (connect : CStr → Except String Socket) (g : TagGroup) : SessionCall V → TagGroup
  | .write tagName value => rtdeTagSet tagName value g
  | .registerTag tagName => (registerTag tagName g).2
  | .process => processTagGroup connect g

/-- What the next poll of a group answers. -/
def polled (g : TagGroup) : Extracted × Client :=
  (((g.rtdeImpl.getD {}).client).getD {}).poll

theorem tryExtractFrame_isOpen {c : Client} (hopen : c.socket.isSome = true) :
    c.tryExtractFrame.2.socket.isSome = true := by
  obtain ⟨s, hs⟩ := Option.isSome_iff_exists.mp hopen
  unfold Client.tryExtractFrame
  rw [hs]
  rcases hdrain : drainLoop s.recvs c.recvBuf with ⟨_ | e, buf, recvs⟩
  · simp only [hdrain]
    rfl
  · by_cases he : e = eWouldBlock
    · simp only [hdrain, if_pos he, Client.parseBufferedFrame]
      cases parseFrame buf <;> rfl
    · simp only [hdrain, if_neg he]
      rfl

/-- A poll that does not fail leaves the connection open. -/
theorem pollLoop_isOpen {fuel : Nat} {latest : Option (UInt8 × List UInt8)} {c c' : Client}
    {r : Extracted} (hopen : c.socket.isSome = true) (h : pollLoop fuel latest c = (r, c'))
    (hr : r ≠ .error) : c'.socket.isSome = true := by
  induction fuel generalizing latest c with
  | zero =>
    obtain ⟨-, rfl⟩ := Prod.mk.inj h
    exact hopen
  | succ fuel ih =>
    have hnext := tryExtractFrame_isOpen hopen
    rw [pollLoop] at h
    rcases hframe : c.tryExtractFrame with ⟨_ | _ | ⟨type, payload⟩, c₁⟩
    · rw [hframe] at h
      exact absurd (Prod.mk.inj h).1.symm hr
    · rw [hframe] at h hnext
      cases latest <;>
      · obtain ⟨-, rfl⟩ := Prod.mk.inj h
        exact hnext
    · rw [hframe] at h hnext
      cases payload <;> exact ih hnext h

variable {hs : Handshake connect g} {g' : TagGroup} {impl : RtdeTagGroupImpl}

theorem Handshake.Serving.polled_isOpen (h : hs.Serving g' impl) {c' : Client} {r : Extracted}
    (hpoll : polled g' = (r, c')) (hr : r ≠ .error) : ∃ s, c'.socket = some s := by
  obtain ⟨c, s, hclient, hsocket⟩ := h.isOpen
  rw [polled, h.rtdeImpl, Option.getD_some, hclient, Option.getD_some, Client.poll, hsocket] at hpoll
  exact Option.isSome_iff_exists.mp (pollLoop_isOpen (by rw [hsocket]; rfl) hpoll hr)

/-- The next poll brings a package of the session's output recipe. -/
def Handshake.Accepts (hs : Handshake connect g) (g' : TagGroup) (payload : List UInt8) : Prop :=
  (∃ c, polled g' = (.frame hs.impl.outputRecipeId payload, c)) ∧
    payload.length = hs.outputRecipe.size

/-- A poll fails, or keeps the session served: it takes a package of the output recipe, or leaves
everything tags are read from. -/
theorem Handshake.Serving.process (h : hs.Serving g' impl) :
    (processTagGroup connect g').hasError = true ∨
    ∃ impl', hs.Serving (processTagGroup connect g') impl' ∧ impl'.tags = impl.tags ∧
      impl'.inputPayload = impl.inputPayload ∧
      ((hs.Accepts g' impl'.outputPayload ∧ impl'.haveOutputData = true) ∨
       ((∀ payload, ¬ hs.Accepts g' payload) ∧ impl'.outputPayload = impl.outputPayload ∧
        impl'.haveOutputData = impl.haveOutputData)) := by
  have hpolled : polled g' = (impl.client.getD {}).poll := by
    rw [polled, h.rtdeImpl, Option.getD_some]
  have hnot : ∀ {r : Extracted} {c : Client}, polled g' = (r, c) →
      (∀ payload, r = .frame hs.impl.outputRecipeId payload →
        payload.length ≠ hs.outputRecipe.size) → ∀ payload, ¬ hs.Accepts g' payload := by
    rintro r c hpoll hr payload ⟨⟨c', hpoll'⟩, hlen⟩
    rw [hpoll] at hpoll'
    exact hr payload (Prod.mk.inj hpoll').1 hlen
  unfold processTagGroup processRtdeTagGroup
  simp only [h.hasError, h.sessionStarted, h.rtdeImpl, Bool.false_eq_true, if_false, if_true,
    Bool.not_true, ← hpolled]
  rcases hpoll : polled g' with ⟨_ | _ | ⟨recipeId, payload⟩, c⟩
  · exact .inl rfl
  · obtain ⟨s, hsocket⟩ := h.polled_isOpen hpoll (fun hno => nomatch hno)
    refine .inr ⟨{ impl with client := some c }, ⟨rfl, rfl, ⟨c, s, rfl, hsocket⟩, h.started,
      h.tags, h.inputRecipeSetup, h.inputRecipeId, h.outputRecipeId, h.inputLength,
      h.outputLength⟩, rfl, rfl, .inr ⟨?_, rfl, rfl⟩⟩
    exact hnot hpoll (fun _ hno => nomatch hno)
  · obtain ⟨s, hsocket⟩ := h.polled_isOpen hpoll (fun hno => nomatch hno)
    right
    by_cases haccept : recipeId = impl.outputRecipeId ∧ payload.length = impl.outputPayload.length
    · obtain ⟨hid, hlen⟩ := haccept
      have hsize := hlen.trans h.outputLength
      simp only [hid, hlen, and_self, if_true]
      refine ⟨_, ⟨rfl, rfl, ⟨c, s, rfl, hsocket⟩, h.started, h.tags, h.inputRecipeSetup,
        h.inputRecipeId, h.outputRecipeId, h.inputLength, hsize⟩, rfl, rfl, .inl ⟨⟨⟨c, ?_⟩, hsize⟩, rfl⟩⟩
      rw [hpoll, hid, h.outputRecipeId]
    · simp only [haccept, if_false]
      refine ⟨_, ⟨rfl, rfl, ⟨c, s, rfl, hsocket⟩, h.started, h.tags, h.inputRecipeSetup,
        h.inputRecipeId, h.outputRecipeId, h.inputLength, h.outputLength⟩, rfl, rfl, .inr ⟨?_, rfl, rfl⟩⟩
      refine hnot hpoll fun p hp hlen => haccept ?_
      obtain ⟨rfl, rfl⟩ := Extracted.frame.inj hp
      exact ⟨h.outputRecipeId.symm, hlen.trans h.outputLength.symm⟩

/-- A tag registered while a session runs is not initialised, and nothing else changes. -/
theorem Handshake.Serving.registerTag (h : hs.Serving g' impl) (name : CStr) :
    ∃ impl', hs.Serving (registerTag name g').2 impl' ∧
      impl'.outputPayload = impl.outputPayload ∧ impl'.haveOutputData = impl.haveOutputData := by
  unfold Rtde.registerTag
  by_cases hname : name = []
  · rw [if_pos hname]
    exact ⟨impl, h, rfl, rfl⟩
  rw [if_neg hname, h.rtdeImpl, Option.bind_some]
  cases impl.tags[name]? with
  | some e => exact ⟨impl, h, rfl, rfl⟩
  | none =>
    cases parseTagIndex name with
    | none =>
      exact ⟨impl, ⟨rfl, h.hasError, h.isOpen, h.started, h.tags, h.inputRecipeSetup,
        h.inputRecipeId, h.outputRecipeId, h.inputLength, h.outputLength⟩, rfl, rfl⟩
    | some parsed =>
      obtain ⟨base, idx, brackets⟩ := parsed
      refine ⟨_, ⟨rfl, h.hasError, h.isOpen, h.started, ?_, h.inputRecipeSetup,
        h.inputRecipeId, h.outputRecipeId, h.inputLength, h.outputLength⟩, rfl, rfl⟩
      intro n e he hinit
      rw [Option.getD_some, Std.ExtTreeMap.getElem?_insert] at he
      by_cases hn : compare name n = .eq
      · rw [if_pos hn] at he
        obtain rfl := Option.some.inj he
        cases hinit
      · rw [if_neg hn] at he
        exact h.tags n e he hinit

/-! ## Every session -/

/-- The session has failed, or it is served. -/
def Handshake.Running (hs : Handshake connect g) (g' : TagGroup) : Prop :=
  g'.hasError = true ∨ ∃ impl, hs.Serving g' impl

/-- The session has failed, or output tags are read from `payload`. -/
def Handshake.Holding (hs : Handshake connect g) (payload : List UInt8) (g' : TagGroup) : Prop :=
  g'.hasError = true ∨
    ∃ impl, hs.Serving g' impl ∧ impl.haveOutputData = true ∧ impl.outputPayload = payload

/-- A group that has failed stays so. -/
theorem callStep_hasError (h : g'.hasError = true) (call : SessionCall V) :
    (callStep connect g' call).hasError = true := by
  cases call with
  | write name value =>
    rw [callStep, rtdeTagSet]
    cases inputPackage g' name value with
    | none => exact h
    | some payload => exact h
  | registerTag name =>
    rw [callStep, Rtde.registerTag]
    by_cases hname : name = []
    · rw [if_pos hname]
      exact h
    · rw [if_neg hname]
      cases g'.rtdeImpl.bind fun impl => impl.tags[name]? with
      | some e => exact h
      | none => cases parseTagIndex name <;> exact h
  | process =>
    rw [callStep, processTagGroup, if_pos h]
    exact h

theorem Handshake.Running.step (h : hs.Running g') (call : SessionCall V) :
    hs.Running (callStep connect g' call) := by
  rcases h with herror | ⟨impl, hserving⟩
  · exact .inl (callStep_hasError herror call)
  cases call with
  | write name value =>
    obtain ⟨impl', hserving', _⟩ := hserving.write (name, value)
    exact .inr ⟨impl', hserving'⟩
  | registerTag name =>
    obtain ⟨impl', hserving', _⟩ := hserving.registerTag name
    exact .inr ⟨impl', hserving'⟩
  | process =>
    rcases hserving.process with herror | ⟨impl', hserving', _⟩
    · exact .inl herror
    · exact .inr ⟨impl', hserving'⟩

/-- What output tags are read from changes only when a package is taken. -/
theorem Handshake.Holding.step {payload : List UInt8} (h : hs.Holding payload g')
    (call : SessionCall V) (hquiet : call = .process → ∀ p, ¬ hs.Accepts g' p) :
    hs.Holding payload (callStep connect g' call) := by
  rcases h with herror | ⟨impl, hserving, hdata, hpayload⟩
  · exact .inl (callStep_hasError herror call)
  cases call with
  | write name value =>
    obtain ⟨impl', hserving', _, _, hout, hhave⟩ := hserving.write (name, value)
    exact .inr ⟨impl', hserving', hhave.trans hdata, hout.trans hpayload⟩
  | registerTag name =>
    obtain ⟨impl', hserving', hout, hhave⟩ := hserving.registerTag name
    exact .inr ⟨impl', hserving', hhave.trans hdata, hout.trans hpayload⟩
  | process =>
    rcases hserving.process with herror | ⟨impl', hserving', _, _, haccept | ⟨_, hout, hhave⟩⟩
    · exact .inl herror
    · exact absurd haccept.1 (hquiet rfl _)
    · exact .inr ⟨impl', hserving', hhave.trans hdata, hout.trans hpayload⟩

/-- A variable of the offset table is one of the recipe. -/
theorem lookup_zip {names : List CStr} {types : List FieldType} {start off : Nat} {base : CStr}
    {ft : FieldType} (h : (offsetTable start names types).lookup base = some (off, ft)) :
    (names.zip types).lookup base = some ft := by
  induction names generalizing types start with
  | nil => cases h
  | cons name names ih =>
    cases types with
    | nil => cases h
    | cons t types =>
      rw [offsetTable, List.lookup_cons] at h
      rw [List.zip_cons_cons, List.lookup_cons]
      cases hname : base == name with
      | true =>
        rw [hname] at h
        obtain ⟨-, rfl⟩ := Prod.mk.inj (Option.some.inj h)
        rfl
      | false =>
        rw [hname] at h
        exact ih h

/-- An output tag read out of a package of its recipe. -/
theorem Handshake.Ready.scalar_encode {name : CStr} {e : RtdeTagEntry} (he : hs.Ready name e)
    (hinput : e.isInput = false) {vals : Values} (hfits : hs.outputRecipe.Fits vals) :
    ∃ ft, hs.outputRecipe.lookup e.baseName = some ft ∧
      (e.read (hs.outputRecipe.encode vals) : B) =
        (vals.at ft e.baseName e.elementIndex.toNat e.hasBrackets).cast := by
  obtain ⟨off, ft, hplaced, hend⟩ := he.fits
  rw [hinput] at hplaced hend
  have hlookup : hs.outputRecipe.lookup e.baseName = some ft := lookup_zip hplaced.lookup
  refine ⟨ft, hlookup, ?_⟩
  have hlen : off + fieldSize ft ≤ (hs.outputRecipe.encode vals).length := by
    rw [Recipe.length_encode hfits]
    exact hend
  have hread := hplaced.read_eq (hs.outputRecipe.encode vals)
  have hvariable : ∀ i < (fieldArity ft).toNat,
      (vals e.baseName i).Fits (fieldElementType ft) := by
    have hmem : (e.baseName, ft) ∈ hs.outputRecipe := (lookup_offsetTable hplaced.lookup).2.2.1
    exact hfits _ hmem
  have hidx : (e.hasBrackets && unsignedIntScalar ft) = false →
      e.elementIndex.toNat < (fieldArity ft).toNat := by
    intro hbits
    rw [← hplaced.bitIndexed] at hbits
    have hrange := (hplaced.scalar hbits).1
    have hnonneg := hplaced.index_nonneg
    omega
  rw [← Handshake.outputRecipe, Recipe.read, Recipe.field_encode hfits hlookup, Option.map_some,
    readField_encodeField hvariable hidx] at hread
  rw [hplaced.read_cast hlen, ← Option.some.inj hread]

/-- In every session that starts, after every history of calls: a package of another recipe or of
another length changes no read; and once a package of the output recipe has been taken, every
initialised output tag reads its variable, element or bit of it until the next one is taken. -/
theorem output_recipe_agrees (pollingInterval : Int) (gateway : CStr) (names : List CStr)
    {g' : TagGroup} (hinit : initRtdeSession connect (registered pollingInterval gateway names) =
      (true, g')) :
    ∃ hs : Handshake connect (registered pollingInterval gateway names), g' = hs.group ∧
      ∀ calls : List (SessionCall V),
        let served := run (callStep connect) g' calls
        served.hasError = false →
        (∀ recipeId payload c, polled served = (.frame recipeId payload, c) →
          recipeId ≠ hs.impl.outputRecipeId ∨ payload.length ≠ hs.outputRecipe.size →
          ∀ name, (rtdeRead (processTagGroup connect served) name : B) = rtdeRead served name) ∧
        ∀ vals c, hs.outputRecipe.Fits vals →
          polled served = (.frame hs.impl.outputRecipeId (hs.outputRecipe.encode vals), c) →
          ∀ later : List (SessionCall V),
            Meets (callStep connect) (fun g call => call = .process → ∀ p, ¬ hs.Accepts g p)
              (processTagGroup connect served) later →
            let state := run (callStep connect) (processTagGroup connect served) later
            state.hasError = false →
            ∀ name base idx brackets e, parseTagIndex name = some (base, idx, brackets) →
              rtdeIsInputName base = false → (state.rtdeImpl.getD {}).tags[name]? = some e →
              e.initialized = true →
              0 ≤ idx ∧ ∃ ft, hs.outputRecipe.lookup base = some ft ∧
                (rtdeRead state name : B) = (vals.at ft base idx.toNat brackets).cast := by
  have hfresh := registered_fresh pollingInterval gateway names
  obtain ⟨hs, rfl⟩ := initRtdeSession_eq_true hinit
  refine ⟨hs, rfl, fun calls => ?_⟩
  intro served hok
  have hrunning : hs.Running served :=
    run_of_invariant (callStep connect) (fun _ call h => h.step call)
      (.inr ⟨hs.impl, hs.serving hfresh⟩) calls
  obtain ⟨impl, hserving⟩ := hrunning.resolve_left (by rw [hok]; exact Bool.false_ne_true)
  constructor
  · intro recipeId payload c hpoll hother name
    have hnot : ∀ p, ¬ hs.Accepts served p := by
      rintro p ⟨⟨c', hpoll'⟩, hlen⟩
      rw [hpoll] at hpoll'
      obtain ⟨rfl, rfl⟩ := Extracted.frame.inj (Prod.mk.inj hpoll').1
      exact hother.elim (fun h => h rfl) (fun h => h hlen)
    rcases hserving.process with herror | ⟨impl', hserving', htags, hin, haccept | ⟨_, hout, hhave⟩⟩
    · rw [processTagGroup, hok, if_neg Bool.false_ne_true, processRtdeTagGroup] at herror
      simp only [hserving.sessionStarted, hserving.rtdeImpl, if_true, Bool.not_true,
        Bool.false_eq_true, if_false] at herror
      rw [polled, hserving.rtdeImpl, Option.getD_some] at hpoll
      simp only [hpoll] at herror
      split at herror <;> exact absurd herror (by rw [hok]; exact Bool.false_ne_true)
    · exact absurd haccept.1 (hnot _)
    · simp only [rtdeRead, hserving'.rtdeImpl, hserving.rtdeImpl, htags, hin, hout, hhave,
        hserving'.hasError, hserving.hasError]
  · intro vals c hfits hpoll later hquiet state hstate name base idx brackets e hparse hinput htag
      hinit'
    have haccepts : hs.Accepts served (hs.outputRecipe.encode vals) :=
      ⟨⟨c, hpoll⟩, Recipe.length_encode hfits⟩
    have hholding : hs.Holding (hs.outputRecipe.encode vals) (processTagGroup connect served) := by
      rcases hserving.process with herror | ⟨impl', hserving', _, _, ⟨⟨⟨c', hpoll'⟩, _⟩, hdata⟩ | hno⟩
      · exact .inl herror
      · rw [hpoll] at hpoll'
        exact .inr ⟨impl', hserving', hdata, (Extracted.frame.inj (Prod.mk.inj hpoll').1).2.symm⟩
      · exact absurd haccepts (hno.1 _)
    have hend : hs.Holding (hs.outputRecipe.encode vals) state :=
      (along_of_meets (callStep connect) (fun _ call h hC => h.step call hC) hholding hquiet).last
    obtain ⟨impl', hserving', hdata, hpayload⟩ :=
      hend.resolve_left (by rw [hstate]; exact Bool.false_ne_true)
    rw [hserving'.rtdeImpl, Option.getD_some] at htag
    have he := hserving'.tags name e htag hinit'
    have hname := he.fromName.parse
    rw [hparse, Option.some.injEq, Prod.mk.injEq, Prod.mk.injEq] at hname
    obtain ⟨rfl, rfl, rfl⟩ := hname
    have hout : e.isInput = false := he.fromName.isInput.trans hinput
    obtain ⟨off, ft, hplaced⟩ := he.placed
    obtain ⟨ft', hlookup, hread⟩ := he.scalar_encode (B := B) hout hfits
    refine ⟨hplaced.index_nonneg, ft', hlookup, ?_⟩
    rw [rtdeRead, hserving'.rtdeImpl]
    simp only [htag, hserving'.hasError, hinit', hout, hdata, hpayload, Bool.not_true, Bool.or_self,
      Bool.false_eq_true, if_false, if_true]
    exact hread

/-! ## A package taken -/

/-- The reply of a handshake to the output recipe. -/
theorem Handshake.outputs_eq (hs : Handshake connect g) {s : Socket}
    (hconnect : connect g.gateway = .ok s) :
    hs.outputs = ((Client.opened s).negotiateVersion.2.setupOutputs
      (sessionFrequency g.pollingInterval).toBits (outputNames g)).1 := by
  have hsocket := hs.connected
  rw [hconnect] at hsocket
  obtain rfl := Except.ok.inj hsocket
  rw [hs.version, hs.setupOutputs]

/-- A controller with one word of output bits, that sends one package in which bit 3 is set. -/
def bitsSocket : Socket where
  sends := List.replicate 3 (.accepted 100)
  recvs := [.bytes [0, 4, 86, 1], .bytes ([0, 10, 79, 1] ++ toBytes "UINT64".toList),
    .bytes [0, 4, 83, 1], .bytes [0, 12, 85, 1, 0, 0, 0, 0, 0, 0, 0, 8]]

/-- The bit is read from the package. -/
theorem package_bit_read :
    let connect := fun _ => .ok bitsSocket
    let start := initRtdeSession connect (registered 0 [] ["output_bits[3]".toList])
    (rtdeRead (processTagGroup connect start.2) "output_bits[3]".toList : Bool) = true := by
  intro connect start
  obtain ⟨hs, hgroup, hall⟩ := output_recipe_agrees (V := Bool) (B := Bool) 0 []
    ["output_bits[3]".toList] (show _ = (true, start.2) from
      Prod.ext (show start.1 = true by decide) rfl)
  have htypes : hs.outputs.types = [.uint64] := by
    rw [hs.outputs_eq rfl]
    decide
  have hrecipe : hs.outputRecipe = [("output_bits".toList, .uint64)] := by
    rw [Handshake.outputRecipe, htypes]
    decide
  have hid : hs.impl.outputRecipeId = 1 := by
    have hsome : hs.impl = (start.2.rtdeImpl.getD {}) := by
      rw [hgroup]
      rfl
    rw [hsome]
    decide
  have hpolled : polled start.2 = (.frame hs.impl.outputRecipeId
      (hs.outputRecipe.encode fun _ _ => .int 8), (polled start.2).2) := by
    refine Prod.ext ?_ rfl
    rw [hrecipe, hid]
    decide
  have hfits : hs.outputRecipe.Fits fun _ _ => .int 8 := by
    rw [hrecipe]
    intro p hp i _
    obtain rfl := List.mem_singleton.mp hp
    exact ⟨by decide, by decide⟩
  obtain ⟨_, ft, hlookup, hread⟩ := (hall [] (by decide)).2 _ _ hfits hpolled [] trivial (by decide)
    "output_bits[3]".toList "output_bits".toList 3 true
    { initialized := true, baseName := "output_bits".toList, elementIndex := 3, hasBrackets := true,
      isBitIndexed := true, baseType := .uint64, scalarType := .bool }
    (by decide) (by decide) (by decide) rfl
  rw [hrecipe] at hlookup
  obtain rfl := Option.some.inj hlookup
  exact hread

end OipComms.Rtde
