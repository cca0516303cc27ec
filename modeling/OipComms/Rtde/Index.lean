import OipComms.Lib.Separator
import OipComms.Rtde.Output

/-!
# The index a tag name gives

A tag `base[s]` names one element of a variable, or one bit of an unsigned integer. The text `s`
becomes a 64-bit integer and then an `int`; `init_rtde_session` checks the `int`. `index_as_written`
says that the element or bit is the one the name gives exactly when `s` denotes an `int` to begin
with.
-/

namespace OipComms.Rtde

open Separator

variable {connect : CStr → Except String Socket} {g : TagGroup}

/-- The integer an index text denotes: digits behind an optional sign. -/
def denoted (s : CStr) : Int :=
  if s.head? = some '-' then -decimal s.tail
  else if s.head? = some '+' then decimal s.tail
  else decimal s

/-- A tag name with brackets: the text before the first `[`, and the text up to a `]` at the end. -/
def Bracketed (name base s : CStr) : Prop := name = base ++ '[' :: (s ++ [']']) ∧ '[' ∉ base

/-- The indices a variable has: the bits of an unsigned integer, else the elements. -/
def extent (ft : FieldType) : Int :=
  if unsignedIntScalar ft then 8 * fieldScalarSize ft else fieldArity ft

/-- The tags of a group have the base name and the index their names give; a session starts only if
each index is one the variable has, and what a tag then denotes in a payload is the element or bit
of that index. -/
structure IndexAsWritten (connect : CStr → Except String Socket) (g : TagGroup) : Prop where
  parsed : ∀ name e, (g.rtdeImpl.getD {}).tags[name]? = some e → ∀ base s, Bracketed name base s →
    e.baseName = base ∧ e.elementIndex = denoted s
  started : ∀ g', initRtdeSession connect g = (true, g') → ∃ hs : Handshake connect g,
    g' = hs.group ∧ ∀ name e, (g'.rtdeImpl.getD {}).tags[name]? = some e →
      ∀ base s, Bracketed name base s →
        0 ≤ denoted s ∧ denoted s < extent e.baseType ∧
        ∀ payload, (hs.recipe e.isInput).read payload base (denoted s).toNat true =
          some (e.scalar payload)

/-- The index of every tag with brackets is an `int`. -/
def IndicesFit (g : TagGroup) : Prop :=
  ∀ name ∈ (g.rtdeImpl.getD {}).tags, ∀ base s, Bracketed name base s →
    -2147483648 ≤ denoted s ∧ denoted s < 2147483648

/-! ## Index texts -/

/-- A valid index text is digits, or digits behind a sign. -/
theorem isValidInt_cases {s : CStr} (h : isValidInt s = true) :
    Digits s ∨ ∃ sign rest, s = sign :: rest ∧ (sign = '+' ∨ sign = '-') ∧ Digits rest := by
  simp only [isValidInt, Bool.and_eq_true, decide_eq_true_eq, List.all_eq_true] at h
  obtain ⟨hne, hall⟩ := h
  by_cases hsign : s.length ≠ 1 ∧ (s.head? = some '+' ∨ s.head? = some '-')
  · rw [if_pos hsign] at hall
    obtain ⟨sign, rest, rfl⟩ := List.exists_cons_of_ne_nil hne
    obtain ⟨hlength, hhead⟩ := hsign
    simp only [List.head?_cons, Option.some.injEq] at hhead
    refine .inr ⟨sign, rest, rfl, hhead, ?_, hall⟩
    rintro rfl
    exact hlength rfl
  · rw [if_neg hsign] at hall
    exact .inl ⟨hne, hall⟩

/-- Digits have no sign before them. -/
theorem head_ne_of_digits {s : CStr} (h : Digits s) {c : Char} (hc : c.isDigit = false) :
    s.head? ≠ some c := by
  intro hhead
  have hdigit := h.2 c (List.mem_of_mem_head? hhead)
  rw [hc] at hdigit
  cases hdigit

/-- What `to_int` makes of a valid index text, cut to an `int`. -/
theorem toInt_valid {s : CStr} (h : isValidInt s = true) :
    toInt s = int32 (max (-9223372036854775808) (min 9223372036854775807 (denoted s))) := by
  rcases isValidInt_cases h with hdigits | ⟨sign, rest, rfl, hsign, hdigits⟩
  · rw [toInt, denoted, List.filter_eq_self.mpr hdigits.2, if_neg (head_ne_of_digits hdigits rfl),
      if_neg (head_ne_of_digits hdigits rfl), if_neg (head_ne_of_digits hdigits rfl)]
  · have hfilter : (sign :: rest).filter Char.isDigit = rest := by
      have hplain : sign.isDigit = false := by
        rcases hsign with rfl | rfl
        · rfl
        · rfl
      rw [List.filter_cons_of_neg (by rw [hplain]; exact Bool.false_ne_true),
        List.filter_eq_self.mpr hdigits.2]
    rw [toInt, denoted, hfilter]
    rcases hsign with rfl | rfl
    · rfl
    · rfl

/-- The conversion gives what the text denotes exactly when that is an `int`. -/
theorem toInt_eq_denoted_iff {s : CStr} (h : isValidInt s = true) :
    toInt s = denoted s ↔ -2147483648 ≤ denoted s ∧ denoted s < 2147483648 := by
  rw [toInt_valid h, int32]
  omega

/-- A name with brackets that is accepted is split at its brackets. -/
theorem parseTagIndex_bracketed {name base s b : CStr} {idx : Int} {brackets : Bool}
    (hname : Bracketed name base s) (h : parseTagIndex name = some (b, idx, brackets)) :
    b = base ∧ idx = toInt s ∧ brackets = true ∧ isValidInt s = true := by
  obtain ⟨rfl, hbase⟩ := hname
  rw [parseTagIndex, idxOf?_append_cons (s ++ [']']) hbase] at h
  have hdrop : (base ++ '[' :: (s ++ [']'])).drop (base.length + 1) = s ++ [']'] := by
    rw [List.drop_append, List.drop_of_length_le (Nat.le_succ _), Nat.add_sub_cancel_left]
    rfl
  simp only [hdrop] at h
  cases hend : (s ++ [']']).idxOf? ']' with
  | none =>
    rw [hend] at h
    cases h
  | some len =>
    rw [hend] at h
    simp only at h
    have hlength : (base ++ '[' :: (s ++ [']'])).length = base.length + s.length + 2 := by
      rw [List.length_append, List.length_cons, List.length_append]
      rfl
    by_cases hlen : len = s.length
    case neg =>
      rw [if_pos (by omega)] at h
      cases h
    rw [if_neg (by omega), hlen, List.take_left, List.take_left] at h
    by_cases hvalid : isValidInt s = true
    case neg =>
      rw [if_neg hvalid] at h
      cases h
    rw [if_pos hvalid] at h
    cases h
    exact ⟨rfl, rfl, rfl, hvalid⟩

/-! ## Every group -/

/-- The index of a tag is the one its name gives exactly when that is an `int`. -/
theorem FromName.index_iff {name base s : CStr} {e : RtdeTagEntry} (h : FromName name e)
    (hname : Bracketed name base s) : (e.baseName = base ∧ e.elementIndex = denoted s) ↔
      -2147483648 ≤ denoted s ∧ denoted s < 2147483648 := by
  obtain ⟨hbase, hindex, -, hvalid⟩ := parseTagIndex_bracketed hname h.parse
  rw [hbase, hindex, toInt_eq_denoted_iff hvalid, eq_self_iff_true, true_and]

theorem FromName.hasBrackets {name base s : CStr} {e : RtdeTagEntry} (h : FromName name e)
    (hname : Bracketed name base s) : e.hasBrackets = true :=
  (parseTagIndex_bracketed hname h.parse).2.2.1

/-- A tag with brackets that a session has placed has an index its variable has. -/
theorem Placed.index_lt {table : List (CStr × Nat × FieldType)} {e : RtdeTagEntry} {off : Nat}
    {ft : FieldType} (h : Placed table e off ft) (hbrackets : e.hasBrackets = true) :
    e.elementIndex < extent e.baseType := by
  have hbit := h.bitIndexed
  rw [hbrackets, Bool.true_and] at hbit
  rw [h.baseType, extent, ← hbit]
  cases hindexed : e.isBitIndexed with
  | true => exact (h.bit hindexed).1
  | false => exact (h.scalar hindexed).1

theorem Handshake.Ready.read_eq {hs : Handshake connect g} {name : CStr} {e : RtdeTagEntry}
    (h : hs.Ready name e) (payload : List UInt8) :
    (hs.recipe e.isInput).read payload e.baseName e.elementIndex.toNat e.hasBrackets =
      some (e.scalar payload) := by
  obtain ⟨off, ft, hplaced⟩ := h.placed
  cases hinput : e.isInput with
  | true =>
    rw [hinput] at hplaced
    exact Placed.read_eq hplaced payload
  | false =>
    rw [hinput] at hplaced
    exact Placed.read_eq hplaced payload

/-- In every group, each tag acts on the element or bit its name gives, and only in sessions whose
variables have it, exactly when every index in brackets is an `int`. -/
theorem index_as_written (pollingInterval : Int) (gateway : CStr) (tagNames : List CStr)
    (connect : CStr → Except String Socket) :
    IndexAsWritten connect (registered pollingInterval gateway tagNames) ↔
      IndicesFit (registered pollingInterval gateway tagNames) := by
  have hfresh := registered_fresh pollingInterval gateway tagNames
  generalize registered pollingInterval gateway tagNames = g at hfresh
  constructor
  · intro h name hmem base s hname
    obtain ⟨e, he⟩ := Option.isSome_iff_exists.mp (Std.ExtTreeMap.isSome_getElem?_iff_mem.mpr hmem)
    exact ((hfresh.tags name e he).1.index_iff hname).mp (h.parsed name e he base s hname)
  · intro hfit
    refine ⟨fun name e he base s hname => ?_, fun g' hinit => ?_⟩
    · have hmem := Std.ExtTreeMap.isSome_getElem?_iff_mem.mp (Option.isSome_iff_exists.mpr ⟨e, he⟩)
      exact ((hfresh.tags name e he).1.index_iff hname).mpr (hfit name hmem base s hname)
    · obtain ⟨hs, rfl⟩ := initRtdeSession_eq_true hinit
      refine ⟨hs, rfl, fun name e he base s hname => ?_⟩
      have hready : hs.Ready name e := hs.ready hfresh he
      have hmem : name ∈ (g.rtdeImpl.getD {}).tags :=
        (hs.mem_tags name).mp
          (Std.ExtTreeMap.isSome_getElem?_iff_mem.mp (Option.isSome_iff_exists.mpr ⟨e, he⟩))
      have hbrackets := hready.fromName.hasBrackets hname
      obtain ⟨hbase, hindex⟩ := (hready.fromName.index_iff hname).mpr (hfit name hmem base s hname)
      obtain ⟨off, ft, hplaced⟩ := hready.placed
      rw [← hbase, ← hindex, ← hbrackets]
      exact ⟨hplaced.index_nonneg, hplaced.index_lt hbrackets, hready.read_eq⟩

/-- Bit 4294967299 of a 64-bit word is bit 3: the session starts, and the tag reads the bit of
another name. -/
theorem wrapped_index_read :
    let name := "output_bits[4294967299]".toList
    let connect := fun _ => .ok bitsSocket
    let start := initRtdeSession connect (registered 0 [] [name])
    start.1 = true ∧ (rtdeRead (processTagGroup connect start.2) name : Bool) = true ∧
      ¬ IndexAsWritten connect (registered 0 [] [name]) := by
  intro name connect start
  refine ⟨by decide +kernel, by decide +kernel, fun h => ?_⟩
  let e : RtdeTagEntry :=
    { baseName := "output_bits".toList, elementIndex := 3, hasBrackets := true }
  have he : ((registered 0 [] [name]).rtdeImpl.getD {}).tags[name]? = some e := by
    decide +kernel
  have hindex : e.elementIndex = _ :=
    (h.parsed name e he "output_bits".toList "4294967299".toList ⟨rfl, by decide⟩).2
  exact absurd hindex (by decide +kernel)

end OipComms.Rtde
