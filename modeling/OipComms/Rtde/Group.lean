import Std.Data.ExtTreeMap
import OipComms.Lib.Slice
import OipComms.Rtde.Client

/-!
# An RTDE tag group

The part of `oip_comms.cpp` that serves a tag group whose protocol is `rtde`: what `register_tag`
makes of a tag name, the session set-up that turns the registered tags into two recipes and gives
each tag its place in a payload, the poll of the work thread, and the write and the reads of a tag.

A tag is `name` or `name[index]`; a name that starts with `input_` belongs to the input recipe. The
value of a write is a Godot `Variant`, known by the three casts the code makes; what a read returns
is known by the two kinds of scalar it is cast from. What is only printed is left out.
-/

namespace OipComms.Rtde

open BigEndian Slice

/-- The casts of a `Variant`: to `bool`, to `int64_t`, and to the bits of a `double`. -/
class GodotVariant (V : Type) where
  toBool : V → Bool
  toInt64 : V → UInt64
  toDouble : V → UInt64

/-- The casts to the type a read returns, from an integer and from the bits of a `double`. -/
class ReadAs (B : Type) where
  ofInt : Int → B
  ofDouble : UInt64 → B

/-- A `Variant` that holds a `bool`; 1.0 is the double it casts to. -/
instance : GodotVariant Bool where
  toBool b := b
  toInt64 b := if b then 1 else 0
  toDouble b := if b then 0x3FF0000000000000 else 0

/-- `read_bit`: a `double` casts to false when it is one of the two zeros. -/
instance : ReadAs Bool where
  ofInt i := i ≠ 0
  ofDouble bits := bits ≠ 0 ∧ bits ≠ 0x8000000000000000

/-! ## Registration -/

/-- `RtdeTagEntry`. -/
structure RtdeTagEntry where
  initialized : Bool := false
  baseName : CStr
  elementIndex : Int := 0
  hasBrackets : Bool := false
  isInput : Bool := false
  isBitIndexed : Bool := false
  baseType : FieldType := .unknown
  scalarType : FieldType := .unknown
  byteOffset : Nat := 0
  deriving DecidableEq, Repr

/-- `std::map<String, RtdeTagEntry>`. -/
abbrev TagMap := Std.ExtTreeMap CStr RtdeTagEntry

/-- `RtdeTagGroupImpl`. -/
structure RtdeTagGroupImpl where
  client : Option Client := none
  tags : TagMap := ∅
  started : Bool := false
  outputRecipeId : UInt8 := 0
  outputPayload : List UInt8 := []
  haveOutputData : Bool := false
  inputRecipeSetup : Bool := false
  inputRecipeId : UInt8 := 0
  inputPayload : List UInt8 := []

/-- What an RTDE group uses of `TagGroup`. -/
structure TagGroup where
  pollingInterval : Int := 0
  gateway : CStr := []
  initCount : Nat := 0
  hasError : Bool := false
  rtdeImpl : Option RtdeTagGroupImpl := none

/-- `String::is_valid_int`. -/
def isValidInt (s : CStr) : Bool :=
  let digits := if s.length ≠ 1 ∧ (s.head? = some '+' ∨ s.head? = some '-') then s.tail else s
  s ≠ [] && digits.all Char.isDigit

/-- `(int)String::to_int()` of a valid integer: held to 64 bits, then cut to 32. -/
def toInt (s : CStr) : Int :=
  let value := decimal (s.filter Char.isDigit)
  let value := if s.head? = some '-' then -value else value
  int32 (max (-9223372036854775808) (min 9223372036854775807 value))

/-- `parse_tag_index`: base name, index, and whether there were brackets. -/
def parseTagIndex (raw : CStr) : Option (CStr × Int × Bool) :=
  match raw.idxOf? '[' with
  | none => some (raw, 0, false)
  | some lb =>
    match (raw.drop (lb + 1)).idxOf? ']' with
    | none => none
    | some len =>
      if lb + 1 + len ≠ raw.length - 1 then none
      else
        let idxStr := (raw.drop (lb + 1)).take len
        if isValidInt idxStr then some (raw.take lb, toInt idxStr, true) else none

/-- `rtde_is_input_name`. -/
def rtdeIsInputName (base : CStr) : Bool := "input_".toList.isPrefixOf base

/-- `register_tag` on an RTDE group: false for an empty or malformed name, and a tag that exists is
left as it is. -/
def registerTag (tagName : CStr) (g : TagGroup) : Bool × TagGroup :=
  if tagName = [] then (false, g)
  else
    match g.rtdeImpl.bind fun impl => impl.tags[tagName]? with
    | some _ => (true, g)
    | none =>
      let impl := g.rtdeImpl.getD {}
      match parseTagIndex tagName with
      | none => (false, { g with rtdeImpl := some impl })
      | some (base, idx, hasBrackets) =>
        let entry : RtdeTagEntry :=
          { baseName := base, elementIndex := idx, hasBrackets := hasBrackets
            isInput := rtdeIsInputName base }
        (true, { g with rtdeImpl := some { impl with tags := impl.tags.insert tagName entry } })

/-! ## The session -/

/-- `rtde_session_started`. -/
def rtdeSessionStarted (g : TagGroup) : Bool :=
  match g.rtdeImpl with
  | none => false
  | some impl => impl.client.any Client.isOpen && impl.started

/-- The base names one recipe asks for, in the order of the tag map, each once. -/
def recipeNames (isInput : Bool) (tags : List (CStr × RtdeTagEntry)) : List CStr :=
  tags.foldl (fun bucket x =>
    if x.2.isInput = isInput then
      if x.2.baseName ∈ bucket then bucket else bucket ++ [x.2.baseName]
    else bucket) []

/-- The offset table of a recipe whose first variable stands at `off`. -/
def offsetTable : Nat → List CStr → List FieldType → List (CStr × Nat × FieldType)
  | off, name :: names, ft :: types =>
    (name, off, ft) :: offsetTable (off + fieldSize ft) names types
  | _, _, _ => []

/-- The bytes of a recipe's payload. -/
def payloadSize (types : List FieldType) : Nat := types.foldl (fun off ft => off + fieldSize ft) 0

/-- The frequency a session asks for. -/
def sessionFrequency (pollingInterval : Int) : Float :=
  let frequency := if 0 < pollingInterval then 1000.0 / Float.ofInt pollingInterval else 125.0
  let frequency := if 500.0 < frequency then 500.0 else frequency
  if frequency < 1.0 then 1.0 else frequency

/-- A tag given its variable's offset and type: false when the index is out of range. -/
def RtdeTagEntry.resolve (entry : RtdeTagEntry) (off : Nat) (ft : FieldType) :
    Bool × RtdeTagEntry :=
  let entry := { entry with baseType := ft }
  if entry.hasBrackets && unsignedIntScalar ft then
    let entry := { entry with isBitIndexed := true, scalarType := .bool }
    let bits : Int := fieldScalarSize ft * 8
    if entry.elementIndex < 0 ∨ bits ≤ entry.elementIndex then (false, entry)
    else (true, { entry with byteOffset := off })
  else
    let entry := { entry with scalarType := fieldElementType ft }
    if entry.elementIndex < 0 ∨ fieldArity ft ≤ entry.elementIndex then (false, entry)
    else (true, { entry with
      byteOffset := off + entry.elementIndex.toNat * fieldScalarSize ft })

/-- The loop that resolves the tags; it ends at the first that fails. -/
def resolveAll (inputOffsets outputOffsets : List (CStr × Nat × FieldType)) :
    List (CStr × RtdeTagEntry) → Bool × List (CStr × RtdeTagEntry)
  | [] => (true, [])
  | (tagName, entry) :: rest =>
    match (if entry.isInput then inputOffsets else outputOffsets).lookup entry.baseName with
    | none => (false, (tagName, entry) :: rest)
    | some (off, ft) =>
      let (ok, entry) := entry.resolve off ft
      if ok then
        let (ok, rest) := resolveAll inputOffsets outputOffsets rest
        (ok, (tagName, entry) :: rest)
      else (false, (tagName, entry) :: rest)

/-- The tags as a session finds them: none initialised. -/
def resetTags (tags : TagMap) : TagMap :=
  tags.map fun _ entry => { entry with initialized := false, byteOffset := 0 }

/-- The tags as a session leaves them: all initialised. -/
def markInitialized (tags : TagMap) : TagMap :=
  tags.map fun _ entry => { entry with initialized := true }

/-- The tags a session starts from, in the order of the map. -/
def sessionTags (g : TagGroup) : List (CStr × RtdeTagEntry) :=
  (resetTags (g.rtdeImpl.getD {}).tags).toList

def outputNames (g : TagGroup) : List CStr := recipeNames false (sessionTags g)

def inputNames (g : TagGroup) : List CStr := recipeNames true (sessionTags g)

/-- The input recipe is set up only when a name asks for it. -/
def setupInputsIfAny (names : List CStr) (client : Client) : SetupReply × Client :=
  if names = [] then ({ ok := true }, client) else client.setupInputs names

/-- `init_rtde_session`. -/
def initRtdeSession (connect : CStr → Except String Socket) (g : TagGroup) : Bool × TagGroup :=
  let impl := g.rtdeImpl.getD {}
  let impl := { impl with
    client := some {}, started := false, haveOutputData := false, inputRecipeSetup := false
    outputPayload := [], inputPayload := [], tags := resetTags impl.tags }
  let leave (impl : RtdeTagGroupImpl) (client : Client) : TagGroup :=
    { g with rtdeImpl := some { impl with client := some client } }
  if outputNames g = [] then (false, leave impl {})
  else
    match Client.open (connect g.gateway) {} with
    | (false, client) => (false, leave impl client)
    | (true, client) =>
    match client.negotiateVersion with
    | (false, client) => (false, leave impl client.close)
    | (true, client) =>
    match client.setupOutputs (sessionFrequency g.pollingInterval).toBits (outputNames g) with
    | (outputs, client) =>
    let impl := { impl with outputRecipeId := outputs.recipeId.getD impl.outputRecipeId }
    if !outputs.ok then (false, leave impl client.close)
    else
    let impl := { impl with outputPayload := List.replicate (payloadSize outputs.types) 0 }
    match setupInputsIfAny (inputNames g) client with
    | (inputs, client) =>
    let impl := { impl with inputRecipeId := inputs.recipeId.getD impl.inputRecipeId }
    if !inputs.ok then (false, leave impl client.close)
    else
    let impl := if inputNames g = [] then impl else
      { impl with
        inputPayload := List.replicate (payloadSize inputs.types) 0, inputRecipeSetup := true }
    match resolveAll (offsetTable 0 (inputNames g) inputs.types)
      (offsetTable 0 (outputNames g) outputs.types) (sessionTags g) with
    | (ok, tags) =>
    let impl := { impl with tags := Std.ExtTreeMap.ofList tags }
    if !ok then (false, leave impl client.close)
    else
    match client.start with
    | (false, client) => (false, leave impl client.close)
    | (true, client) =>
      let impl := { impl with tags := markInitialized impl.tags, started := true }
      (true, { leave impl client with initCount := g.initCount + impl.tags.size })

/-- `process_rtde_tag_group`. -/
def processRtdeTagGroup (connect : CStr → Except String Socket) (g : TagGroup) : TagGroup :=
  let (ok, g) := if rtdeSessionStarted g then (true, g) else initRtdeSession connect g
  if !ok then { g with hasError := true }
  else
    match g.rtdeImpl with
    | none => g
    | some impl =>
      match (impl.client.getD {}).poll with
      | (.error, client) =>
        { g with hasError := true
                 rtdeImpl := some { impl with client := some client, started := false } }
      | (.nothing, client) => { g with rtdeImpl := some { impl with client := some client } }
      | (.frame recipeId payload, client) =>
        let impl := { impl with client := some client }
        if recipeId = impl.outputRecipeId ∧ payload.length = impl.outputPayload.length then
          { g with rtdeImpl := some { impl with outputPayload := payload, haveOutputData := true } }
        else { g with rtdeImpl := some impl }

/-! ## Writing a tag -/

variable {V : Type} [GodotVariant V] {B : Type} [ReadAs B]

/-- One bit of a byte, set or cleared. -/
def setBit8 (p : UInt8) (bit : Nat) (b : Bool) : UInt8 :=
  let mask := ((1 : UInt32) <<< bit.toUInt32).toUInt8
  if b then p ||| mask else p &&& ~~~mask

def setBit32 (cur : UInt32) (bit : Nat) (b : Bool) : UInt32 :=
  if b then cur ||| (1 : UInt32) <<< bit.toUInt32 else cur &&& ~~~((1 : UInt32) <<< bit.toUInt32)

def setBit64 (cur : UInt64) (bit : Nat) (b : Bool) : UInt64 :=
  if b then cur ||| (1 : UInt64) <<< bit.toUInt64 else cur &&& ~~~((1 : UInt64) <<< bit.toUInt64)

/-- The bytes of the integer at `p` with one bit changed; other types have no branch. -/
def bitBytes (baseType : FieldType) (p : List UInt8) (bit : Nat) (b : Bool) : List UInt8 :=
  match baseType with
  | .uint8 => [setBit8 (p.getD 0 0) bit b]
  | .uint32 => hostToBe32 (setBit32 (be32ToHost p) bit b)
  | .uint64 => hostToBe64 (setBit64 (be64ToHost p) bit b)
  | _ => p

/-- The bytes of a value in a field, where the type can be written. -/
def scalarBytes (scalarType : FieldType) (value : V) : Option (List UInt8) :=
  match scalarType with
  | .bool => some [if GodotVariant.toBool value then 1 else 0]
  | .uint8 => some [(GodotVariant.toInt64 value).toUInt8]
  | .int32 | .uint32 => some (hostToBe32 (GodotVariant.toInt64 value).toUInt32)
  | .uint64 => some (hostToBe64 (GodotVariant.toInt64 value))
  | .double => some (hostToBe64 (GodotVariant.toDouble value))
  | _ => none

/-- The input payload `rtde_tag_set` sends for a tag, `none` where it returns before that. -/
def RtdeTagEntry.encode (tag : RtdeTagEntry) (payload : List UInt8) (value : V) :
    Option (List UInt8) :=
  if tag.isBitIndexed then
    let intSize := fieldScalarSize tag.baseType
    if payload.length < tag.byteOffset + intSize then none
    else
      let p := slice payload tag.byteOffset intSize
      some (overwrite payload tag.byteOffset
        (bitBytes tag.baseType p tag.elementIndex.toNat (GodotVariant.toBool value)))
  else if payload.length < tag.byteOffset + fieldScalarSize tag.scalarType then none
  else (scalarBytes tag.scalarType value).map (overwrite payload tag.byteOffset)

/-- The payload a write hands to `send_input`, `none` where `rtde_tag_set` returns before that. -/
def inputPackage (g : TagGroup) (tagPath : CStr) (value : V) : Option (List UInt8) :=
  if !rtdeSessionStarted g then none
  else
    match g.rtdeImpl with
    | none => none
    | some impl =>
      if !impl.inputRecipeSetup then none
      else
        match impl.tags[tagPath]? with
        | none => none
        | some tag =>
          if !tag.isInput || !tag.initialized then none
          else tag.encode impl.inputPayload value

/-- `rtde_tag_set`: the payload is updated and sent; a failed send is only reported. -/
def rtdeTagSet (tagPath : CStr) (value : V) (g : TagGroup) : TagGroup :=
  match inputPackage g tagPath value with
  | none => g
  | some payload =>
    let impl := g.rtdeImpl.getD {}
    let (_, client) := (impl.client.getD {}).sendInput impl.inputRecipeId payload
    { g with rtdeImpl := some { impl with inputPayload := payload, client := some client } }

/-! ## Reading a tag -/

/-- The bit of an integer a bit-indexed tag reads. -/
def readBit (baseType : FieldType) (bp : List UInt8) (bit : Nat) : UInt64 :=
  let v : UInt64 :=
    match baseType with
    | .uint8 => (bp.getD 0 0).toUInt64
    | .uint32 => (be32ToHost bp).toUInt64
    | .uint64 => be64ToHost bp
    | _ => 0
  (v >>> bit.toUInt64) &&& 1

/-- The scalar at `p`, cast to the type read. -/
def readScalar (scalarType : FieldType) (p : List UInt8) : B :=
  match scalarType with
  | .bool => ReadAs.ofInt (if p.getD 0 0 ≠ 0 then 1 else 0)
  | .uint8 => ReadAs.ofInt (p.getD 0 0).toNat
  | .int32 => ReadAs.ofInt (int32 (be32ToHost p).toNat)
  | .uint32 => ReadAs.ofInt (be32ToHost p).toNat
  | .uint64 => ReadAs.ofInt (be64ToHost p).toNat
  | .double => ReadAs.ofDouble (be64ToHost p)
  | _ => ReadAs.ofDouble 0

/-- A tag read out of its recipe's payload. -/
def RtdeTagEntry.read (rtag : RtdeTagEntry) (src : List UInt8) : B :=
  if rtag.isBitIndexed then
    let intSize := fieldScalarSize rtag.baseType
    if src.length < rtag.byteOffset + intSize then ReadAs.ofDouble 0
    else
      ReadAs.ofInt
        (readBit rtag.baseType (slice src rtag.byteOffset intSize) rtag.elementIndex.toNat).toNat
  else if src.length < rtag.byteOffset + fieldScalarSize rtag.scalarType then ReadAs.ofDouble 0
  else
    readScalar rtag.scalarType
      (slice src rtag.byteOffset (fieldScalarSize rtag.scalarType))

/-- The RTDE branch of `read_*`; 0 where it has nothing to read. -/
def rtdeRead (g : TagGroup) (tagName : CStr) : B :=
  match g.rtdeImpl with
  | none => ReadAs.ofDouble 0
  | some impl =>
    match impl.tags[tagName]? with
    | none => ReadAs.ofDouble 0
    | some rtag =>
      if g.hasError || !rtag.initialized then ReadAs.ofDouble 0
      else if rtag.isInput then rtag.read impl.inputPayload
      else if impl.haveOutputData then rtag.read impl.outputPayload
      else ReadAs.ofDouble 0

end OipComms.Rtde
