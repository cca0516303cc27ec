import OipComms.S7.Plc

/-!
# The `S7_tag_*` interface

The free functions of `S7Com.cpp`, which the rest of the program calls in the manner of libplctag.
A handle packs a PLC identifier above a 24-bit tag identifier; every entry point but
`S7_tag_create` finds its connection again by a first-match search of `S7Plcs` on the upper part.

The process-wide data are the two counters and the list `S7Plcs`. Winsock start-up and clean-up
touch nothing else and are left out.
-/

namespace OipComms.S7

open FirstMatch

universe u

/-- The class-wide counters and the list of connections. -/
structure S7State (σ : Type u) where
  tagIdCounter : Nat := 0
  plcIdCounter : Nat := 0
  s7Plcs : List (S7Plc σ) := []

variable {σ : Type u}

/-- `identifier >> 24`, the arithmetic shift. -/
def plcPart (identifier : Int) : Int := identifier / 16777216

/-- The test each entry point makes on the connections, in order. -/
def hasPlcId (identifier : Int) (plc : S7Plc σ) : Bool := (plc.identifier : Int) = plcPart identifier

/-- `S7_tag_create`. The connection of a new host is in the list before the name is looked at, and
stays there when the name is refused. -/
def s7TagCreate (net : Net σ) (s : S7State σ) (host tagName : CStr) :
    Except StoiError Int × S7State σ :=
  let register := fun plc : S7Plc σ => plc.s7RegisterTag s.tagIdCounter tagName
  let tagIdCounter := nextTagId s.tagIdCounter
  match firstMatch (fun plc => plc.plcHostName = host) register s.s7Plcs with
  | some (ret, plcs) => (ret, { s with tagIdCounter := tagIdCounter, s7Plcs := plcs })
  | none =>
    let (ret, plc) := register (S7Plc.new net s.plcIdCounter host)
    (ret, { s with tagIdCounter := tagIdCounter, s7Plcs := s.s7Plcs ++ [plc] })

/-- What `S7_tag_create` does: it registers the name on the first connection of the host, or on a
new connection at the end of the list. -/
theorem s7TagCreate_cases (net : Net σ) (s : S7State σ) (host tagName : CStr) :
    (∃ pre plc post, s.s7Plcs = pre ++ plc :: post ∧ plc.plcHostName = host ∧
      (∀ p ∈ pre, p.plcHostName ≠ host) ∧
      s7TagCreate net s host tagName = ((plc.s7RegisterTag s.tagIdCounter tagName).1,
        { s with tagIdCounter := nextTagId s.tagIdCounter
                 s7Plcs := pre ++ (plc.s7RegisterTag s.tagIdCounter tagName).2 :: post })) ∨
    ((∀ p ∈ s.s7Plcs, p.plcHostName ≠ host) ∧
      s7TagCreate net s host tagName =
        (((S7Plc.new net s.plcIdCounter host).s7RegisterTag s.tagIdCounter tagName).1,
        { s with tagIdCounter := nextTagId s.tagIdCounter
                 s7Plcs := s.s7Plcs ++
                  [((S7Plc.new net s.plcIdCounter host).s7RegisterTag s.tagIdCounter tagName).2] })) := by
  cases hfind : s.s7Plcs.find? (fun plc => decide (plc.plcHostName = host)) with
  | some plc =>
    obtain ⟨hplc, pre, post, hsplit, hpre⟩ := List.find?_eq_some_iff_append.mp hfind
    have hpre' : ∀ p ∈ pre, decide (p.plcHostName = host) = false := fun p hp => by
      simpa only [Bool.not_eq_true'] using hpre p hp
    refine .inl ⟨pre, plc, post, hsplit, of_decide_eq_true hplc,
      fun p hp => of_decide_eq_false (hpre' p hp), ?_⟩
    simp only [s7TagCreate, hsplit, firstMatch_append _ post hpre' hplc]
  | none =>
    have hmiss : ∀ p ∈ s.s7Plcs, decide (p.plcHostName = host) = false := fun p hp => by
      simpa only [Bool.not_eq_true] using List.find?_eq_none.mp hfind p hp
    refine .inr ⟨fun p hp => of_decide_eq_false (hmiss p hp), ?_⟩
    simp only [s7TagCreate, firstMatch_none _ hmiss]

/-- The search of `S7_tag_destroy`: the first connection with the identifier loses the tag, and is
itself deleted when no tag is left; `none` when no connection has the identifier. -/
def destroyIn (identifier : Int) : List (S7Plc σ) → Option (List (S7Plc σ))
  | [] => none
  | plc :: rest =>
    if hasPlcId identifier plc then
      let plc := plc.s7UnregisterTag identifier
      some (if plc.tags.isEmpty then rest else plc :: rest)
    else (destroyIn identifier rest).map (plc :: ·)

theorem destroyIn_append {identifier : Int} {pre : List (S7Plc σ)} {plc : S7Plc σ}
    (post : List (S7Plc σ)) (hpre : ∀ p ∈ pre, hasPlcId identifier p = false)
    (hplc : hasPlcId identifier plc = true) :
    destroyIn identifier (pre ++ plc :: post) =
      some (pre ++ (if (plc.s7UnregisterTag identifier).tags.isEmpty then post
        else plc.s7UnregisterTag identifier :: post)) := by
  induction pre with
  | nil => simp only [List.nil_append, destroyIn, hplc, if_true]
  | cons p pre ih =>
    have hp := hpre p List.mem_cons_self
    have hrest := ih fun x hx => hpre x (List.mem_cons_of_mem _ hx)
    simp only [List.cons_append, destroyIn, hp, hrest, Option.map_some, Bool.false_eq_true, if_false]

theorem destroyIn_none {identifier : Int} {l : List (S7Plc σ)}
    (h : ∀ p ∈ l, hasPlcId identifier p = false) : destroyIn identifier l = none := by
  induction l with
  | nil => rfl
  | cons p l ih =>
    have hp := h p List.mem_cons_self
    have hrest := ih fun x hx => h x (List.mem_cons_of_mem _ hx)
    simp only [destroyIn, hp, hrest, Option.map_none, Bool.false_eq_true, if_false]

/-- `S7_tag_destroy`. -/
def s7TagDestroy (s : S7State σ) (identifier : Int) : Int × S7State σ :=
  match destroyIn identifier s.s7Plcs with
  | some plcs => (0, { s with s7Plcs := plcs })
  | none => (-1, s)

/-- A by-handle entry point that acts on its connection: the answer, and the list with that
connection replaced; -1 when the search finds none. -/
def onPlc (identifier : Int) (act : S7Plc σ → Int × S7Plc σ) (s : S7State σ) : Int × S7State σ :=
  match firstMatch (hasPlcId identifier) act s.s7Plcs with
  | some (ret, plcs) => (ret, { s with s7Plcs := plcs })
  | none => (-1, s)

/-- `S7_readTag`. -/
def s7ReadTag (s : S7State σ) (identifier : Int) : UInt64 :=
  match s.s7Plcs.find? (hasPlcId identifier) with
  | some plc => plc.s7Read identifier
  | none => 0

/-- `S7_writeTag`. -/
def s7WriteTag (s : S7State σ) (identifier : Int) (value : UInt64) : Int × S7State σ :=
  onPlc identifier (fun plc => plc.s7Write identifier value) s

/-- `S7_tag_write`. -/
def s7TagWrite (net : Net σ) (s : S7State σ) (identifier : Int) : Int × S7State σ :=
  onPlc identifier (fun plc => plc.sendTagById net identifier) s

/-- `S7_tag_flush`. -/
def s7TagFlush (net : Net σ) (s : S7State σ) (identifier : Int) : Int × S7State σ :=
  onPlc identifier (fun plc => plc.flushPendingWrites net) s

/-- `S7_tag_connected`. -/
def s7TagConnected (s : S7State σ) (identifier : Int) : Int :=
  match s.s7Plcs.find? (hasPlcId identifier) with
  | some plc => if plc.state = 2 then 1 else 0
  | none => 0

/-! ## Typed access

`S7_tag_set_T` converts its argument to `uint64_t`, sign-extending a signed one, and
`S7_tag_get_T` truncates; a float travels as its bit pattern. -/

/-- The integer types of the `S7_tag_get_*` / `S7_tag_set_*` family. -/
inductive IntType
  | uint64 | int64 | uint32 | int32 | uint16 | int16 | uint8 | int8
  deriving DecidableEq, Repr

/-- `sizeof`, in bytes. -/
def IntType.size : IntType → Nat
  | .uint64 | .int64 => 8
  | .uint32 | .int32 => 4
  | .uint16 | .int16 => 2
  | .uint8 | .int8 => 1

def IntType.signed : IntType → Bool
  | .int64 | .int32 | .int16 | .int8 => true
  | _ => false

/-- The values of the type. -/
def IntType.Holds (t : IntType) (v : Int) : Prop :=
  if t.signed then -(2 ^ (8 * t.size - 1) : Int) ≤ v ∧ v < 2 ^ (8 * t.size - 1)
  else 0 ≤ v ∧ v < 2 ^ (8 * t.size)

/-- `(uint64_t)v`. -/
def toUInt64 (v : Int) : UInt64 := UInt64.ofNat (v % 18446744073709551616).toNat

/-- `(T)value` for a `uint64_t`: the low bytes, read as signed when the type is. -/
def IntType.ofUInt64 (t : IntType) (value : UInt64) : Int :=
  let low : Int := value.toNat % 2 ^ (8 * t.size)
  if t.signed ∧ 2 ^ (8 * t.size - 1) ≤ low then low - 2 ^ (8 * t.size) else low

/-- `S7_tag_get_T`. -/
def s7TagGet (t : IntType) (s : S7State σ) (identifier : Int) : Int :=
  t.ofUInt64 (s7ReadTag s identifier)

/-- `S7_tag_set_T`. -/
def s7TagSet (s : S7State σ) (identifier : Int) (value : Int) : Int × S7State σ :=
  s7WriteTag s identifier (toUInt64 value)

/-- `S7_tag_get_bit`: the value truncated to `int`. -/
def s7TagGetBit (s : S7State σ) (identifier : Int) : Int :=
  IntType.int32.ofUInt64 (s7ReadTag s identifier)

/-- `S7_tag_get_float64`, as the bit pattern of the result. -/
def s7TagGetFloat64 (s : S7State σ) (identifier : Int) : UInt64 := s7ReadTag s identifier

/-- `S7_tag_get_float32`, as the bit pattern of the result: the low half of the value, on the
little-endian hosts the library is built for. -/
def s7TagGetFloat32 (s : S7State σ) (identifier : Int) : UInt32 := (s7ReadTag s identifier).toUInt32

end OipComms.S7
