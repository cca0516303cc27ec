import Mathlib.Data.List.TakeWhile
import OipComms.Lib.Separator
import OipComms.S7.Handles

/-!
# The names of tags

What a tag name says is `Denotes`: an area letter, then a width letter and a byte address, or a byte
address, a dot and a bit number. `DecodeTag` finds the parts of a name (`formOf`) and leaves their
reading to `std::stoi`, which skips blanks, takes a sign, stops at the first character that is no
digit, and throws on a number it cannot read. `create_grammar` says that this makes no difference
for the names whose parts are plain numbers, or that are refused in any case, and for no others.
-/

namespace OipComms.S7

open FirstMatch Separator

universe u

variable {σ : Type u}

/-! ## What a name says -/

/-- The area a first letter stands for, in either case. -/
def letterArea (c : Char) : Option Area := decodeArea c.toUpper

/-- A name and what it denotes: an area, the address of a byte in it, a bit of that byte (-1 where the
name has none) and a number of bytes. -/
inductive Denotes : CStr → Area → Int → Int → Nat → Prop
  | bytes {letter width : Char} {address : CStr} {area : Area} {byteQty : Nat}
    (harea : letterArea letter = some area) (hwidth : widthOf width.toUpper = some byteQty)
    (haddress : Digits address) (hend : decimal address + byteQty ≤ 65536) :
    Denotes (letter :: width :: address) area (decimal address) (-1) byteQty
  | bit {letter : Char} {address bit : CStr} {area : Area}
    (harea : letterArea letter = some area) (haddress : Digits address) (hbit : Digits bit)
    (hseven : decimal bit ≤ 7) (hend : decimal address + 1 ≤ 65536) :
    Denotes (letter :: (address ++ '.' :: bit)) area (decimal address) (decimal bit) 1

/-! ## The parts of a name -/

/-- The form `DecodeTag` sees a name in, with the texts it hands to `std::stoi`. -/
inductive NameForm
  | unknown
  | bytes (byteQty : Nat) (address : CStr)
  | bit (address bit : CStr)
  deriving DecidableEq

def formOf : CStr → NameForm
  | letter :: width :: rest =>
    match widthOf width.toUpper with
    | some byteQty => .bytes byteQty rest
    | none =>
      match (letter :: width :: rest).idxOf? '.' with
      | some dot =>
        .bit (substr (letter :: width :: rest) 1
          (if dot = 0 then (letter :: width :: rest).length else dot - 1))
          ((letter :: width :: rest).drop (dot + 1))
      | none => .unknown
  | _ => .unknown

/-- The area of a name's first letter. -/
def areaOf (name : CStr) : Option Area := name.head?.bind letterArea

/-- What `DecodeTag` makes of the parts. -/
theorem decodeTag_eq_form (id : Nat) (name : CStr) :
    decodeTag id name =
      (match formOf name with
      | .unknown => .ok { identifier := id }
      | .bytes byteQty address => (stoi address).bind fun idx =>
        .ok { identifier := id, idx := idx, byteQty := byteQty, mem := areaOf name }
      | .bit address bit => (stoi address).bind fun idx => (stoi bit).bind fun bitIdx =>
        .ok { identifier := id, idx := idx, bitIdx := int8 bitIdx, byteQty := 1,
              mem := areaOf name }) := by
  match name with
  | [] => rfl
  | [_] => rfl
  | letter :: width :: rest =>
    simp only [decodeTag, formOf]
    cases widthOf width.toUpper with
    | some byteQty => rfl
    | none =>
      cases (letter :: width :: rest).idxOf? '.' with
      | some dot => rfl
      | none => rfl

/-- The names whose numbers `std::stoi` can read, and if the area is known and the range check
passes, are plain digits, with a bit number up to 7 and an end that has not overflowed. -/
def Plain (name : CStr) : Prop :=
  match formOf name with
  | .unknown => True
  | .bytes byteQty address => ∃ idx, stoi address = .ok idx ∧
    (areaOf name ≠ none → int32 (idx + byteQty) ≤ 65536 →
      Digits address ∧ idx + byteQty < 2147483648)
  | .bit address bit => ∃ idx bitIdx, stoi address = .ok idx ∧ stoi bit = .ok bitIdx ∧
    (areaOf name ≠ none → int32 (idx + 1) ≤ 65536 →
      Digits address ∧ Digits bit ∧ bitIdx ≤ 7 ∧ idx + 1 < 2147483648)

/-- The tag a name denotes. -/
def denotedTag (id : Nat) (area : Area) (idx bitIdx : Int) (byteQty : Nat) : S7Tag :=
  { identifier := id, idx := idx, bitIdx := bitIdx, byteQty := byteQty, mem := some area }

/-- `S7_tag_create` on a host with a connection follows the grammar: a name that denotes something is
given a handle, for a tag that is what it denotes; any other is answered with -1, and changes no block
and no tag list. -/
def Follows (net : Net σ) (s : S7State σ) (host name : CStr) : Prop :=
  (∃ area idx bitIdx byteQty h pre plc post, Denotes name area idx bitIdx byteQty ∧ 0 ≤ h ∧
    s.s7Plcs = pre ++ plc :: post ∧ plc.plcHostName = host ∧
    s7TagCreate net s host name = (.ok h, { s with
      tagIdCounter := nextTagId s.tagIdCounter
      s7Plcs := pre ++
        plc.addTag area (denotedTag s.tagIdCounter area idx bitIdx byteQty) :: post })) ∨
  ((∀ area idx bitIdx byteQty, ¬ Denotes name area idx bitIdx byteQty) ∧
    (s7TagCreate net s host name).1 = .ok (-1) ∧
    (s7TagCreate net s host name).2.s7Plcs = s.s7Plcs)

/-! ## Reading plain numbers -/

/-- There are ten digits. -/
theorem digit_mem {c : Char} (h : c.isDigit = true) :
    c ∈ ['0', '1', '2', '3', '4', '5', '6', '7', '8', '9'] := by
  rw [Char.isDigit, Bool.and_eq_true, decide_eq_true_eq, decide_eq_true_eq] at h
  obtain ⟨hlo, hhi⟩ := h
  have hlo' : 48 ≤ c.toNat := hlo
  have hhi' : c.toNat ≤ 57 := hhi
  have hall : ∀ k < 10, Char.ofNat (48 + k) ∈ ['0', '1', '2', '3', '4', '5', '6', '7', '8', '9'] := by
    decide
  have hdigit := hall (c.toNat - 48) (by omega)
  rwa [Nat.add_sub_cancel' hlo', Char.ofNat_toNat] at hdigit

/-- A digit is none of the characters `std::stoi` and `DecodeTag` look for. -/
theorem digit_plain {c : Char} (h : c.isDigit = true) :
    isSpace c = false ∧ c ≠ '-' ∧ c ≠ '+' ∧ c ≠ '.' ∧ widthOf c.toUpper = none := by
  have hmem := digit_mem h
  simp only [List.mem_cons, List.not_mem_nil, or_false] at hmem
  rcases hmem with rfl | rfl | rfl | rfl | rfl | rfl | rfl | rfl | rfl | rfl <;> decide

/-- `std::stoi` of digits reads a decimal. -/
theorem stoi_eq_signedDecimal {text : CStr} (h : Digits text) :
    stoi text = signedDecimal false text := by
  obtain ⟨hne, hall⟩ := h
  obtain ⟨c, rest, rfl⟩ := List.exists_cons_of_ne_nil hne
  obtain ⟨hspace, hminus, hplus, -, -⟩ := digit_plain (hall c List.mem_cons_self)
  have htake : (c :: rest).takeWhile Char.isDigit = c :: rest := List.takeWhile_eq_self_iff.mpr hall
  rw [stoi, List.dropWhile_cons_of_neg (by rw [hspace]; exact Bool.false_ne_true), List.head?_cons]
  simp only [Option.some.injEq, hminus, hplus, if_false, htake]

/-- `std::stoi` of digits that fit is their number. -/
theorem stoi_digits {text : CStr} (h : Digits text) (hle : decimal text ≤ 2147483647) :
    stoi text = .ok (decimal text) := by
  have hpos := decimal_nonneg text
  rw [stoi_eq_signedDecimal h, signedDecimal, if_neg h.1]
  simp only [Bool.false_eq_true, if_false]
  rw [if_neg (by omega)]

/-- What `std::stoi` makes of digits is their number. -/
theorem eq_decimal_of_stoi {text : CStr} (h : Digits text) {v : Int} (hv : stoi text = .ok v) :
    v = decimal text := by
  rw [stoi_eq_signedDecimal h, signedDecimal, if_neg h.1] at hv
  simp only [Bool.false_eq_true, if_false] at hv
  by_cases hrange : decimal text < -2147483648 ∨ 2147483647 < decimal text
  · rw [if_pos hrange] at hv
    cases hv
  · rw [if_neg hrange] at hv
    exact (Except.ok.inj hv).symm

/-- A tag is in range if it ends by 65536. -/
theorem inRange_iff (tag : S7Tag) : tag.inRange = true ↔ tag.endIdx ≤ 65536 := by
  rw [S7Tag.inRange, Bool.not_eq_true', decide_eq_false_iff_not, Int.not_lt]

/-! ## Names and their forms -/

/-- A name with a letter for its width has the form of bytes. -/
theorem formOf_bytes (letter : Char) {width : Char} (address : CStr) {byteQty : Nat}
    (hwidth : widthOf width.toUpper = some byteQty) :
    formOf (letter :: width :: address) = .bytes byteQty address := by
  simp only [formOf, hwidth]

/-- A dot is no area letter. -/
theorem letter_ne_dot {letter : Char} {area : Area} (h : letterArea letter = some area) :
    letter ≠ '.' := by
  rintro rfl
  exact absurd h (by decide +revert)

/-- A name with a dot has the form of a bit. -/
theorem formOf_bit {letter : Char} {address : CStr} (bit : CStr) {area : Area}
    (harea : letterArea letter = some area) (haddress : Digits address) :
    formOf (letter :: (address ++ '.' :: bit)) = .bit address bit := by
  obtain ⟨hne, hall⟩ := haddress
  obtain ⟨d, rest, rfl⟩ := List.exists_cons_of_ne_nil hne
  have hwidth := (digit_plain (hall d List.mem_cons_self)).2.2.2.2
  have hnodot : '.' ∉ letter :: d :: rest := by
    intro hmem
    rcases List.mem_cons.mp hmem with hletter | hdigit
    · exact letter_ne_dot harea hletter.symm
    · exact (digit_plain (hall '.' hdigit)).2.2.2.1 rfl
  have hdot := idxOf?_append_cons bit hnodot
  rw [List.cons_append, List.cons_append] at hdot
  rw [List.cons_append]
  simp only [formOf, hwidth, hdot, List.length_cons, Nat.succ_ne_zero, if_false, Nat.add_sub_cancel]
  congr 1
  · rw [substr, List.drop_one, List.tail_cons, ← List.cons_append, List.take_left' List.length_cons]
  · show (rest ++ '.' :: bit).drop (rest.length + 1) = bit
    rw [List.drop_append, List.drop_of_length_le (by omega), Nat.add_sub_cancel_left]
    rfl

/-- The form of a name with a byte address gives the name back. -/
theorem eq_of_formOf_bytes {name address : CStr} {byteQty : Nat}
    (h : formOf name = .bytes byteQty address) :
    ∃ letter width, name = letter :: width :: address ∧ widthOf width.toUpper = some byteQty := by
  match name with
  | [] => cases h
  | [_] => cases h
  | letter :: width :: rest =>
    simp only [formOf] at h
    cases hwidth : widthOf width.toUpper with
    | some q =>
      rw [hwidth] at h
      cases h
      exact ⟨letter, width, rfl, hwidth⟩
    | none =>
      rw [hwidth] at h
      simp only at h
      cases hdot : (letter :: width :: rest).idxOf? '.' with
      | none =>
        rw [hdot] at h
        cases h
      | some dot =>
        rw [hdot] at h
        cases h

/-- The form of a name with a bit gives the name back, if it starts with an area letter. -/
theorem eq_of_formOf_bit {name address bit : CStr} {area : Area}
    (h : formOf name = .bit address bit) (harea : areaOf name = some area) :
    ∃ letter, name = letter :: (address ++ '.' :: bit) ∧ letterArea letter = some area := by
  match name with
  | [] => cases h
  | [_] => cases h
  | letter :: width :: rest =>
    refine ⟨letter, ?_, harea⟩
    simp only [formOf] at h
    cases hwidth : widthOf width.toUpper with
    | some q =>
      rw [hwidth] at h
      cases h
    | none =>
      rw [hwidth] at h
      simp only at h
      cases hdot : (letter :: width :: rest).idxOf? '.' with
      | none =>
        rw [hdot] at h
        cases h
      | some dot =>
        rw [hdot] at h
        have hsplit := (split_of_idxOf? hdot).1
        cases dot with
        | zero =>
          have hfirst : letter = '.' := (List.cons.inj hsplit).1
          exact absurd hfirst (letter_ne_dot harea)
        | succ dot =>
          simp only [Nat.succ_ne_zero, if_false, Nat.add_sub_cancel, NameForm.bit.injEq] at h
          obtain ⟨rfl, rfl⟩ := h
          exact hsplit

/-- A name that denotes something is decoded as what it denotes, and passes the range check. -/
theorem Denotes.decode {name : CStr} {area : Area} {idx bitIdx : Int} {byteQty : Nat}
    (h : Denotes name area idx bitIdx byteQty) :
    Plain name ∧ (∀ id, decodeTag id name = .ok (denotedTag id area idx bitIdx byteQty)) ∧
      idx + byteQty ≤ 65536 ∧ 0 ≤ idx := by
  cases h with
  | bytes harea hwidth haddress hend =>
    rename_i letter width address
    have hnumber := stoi_digits haddress (by omega)
    have hform := formOf_bytes letter address hwidth
    have hname : areaOf (letter :: width :: address) = some area := harea
    refine ⟨?_, fun id => ?_, hend, decimal_nonneg _⟩
    · rw [Plain, hform]
      exact ⟨_, hnumber, fun _ _ => ⟨haddress, by omega⟩⟩
    · rw [decodeTag_eq_form, hform]
      simp only [hnumber, hname]
      rfl
  | bit harea haddress hbit hseven hend =>
    rename_i letter address bit
    have hnumber := stoi_digits haddress (by omega)
    have hposition := stoi_digits hbit (by omega)
    have hform := formOf_bit bit harea haddress
    have hname : areaOf (letter :: (address ++ '.' :: bit)) = some area := harea
    have hpos := decimal_nonneg bit
    have hnarrow : int8 (decimal bit) = decimal bit := by
      rw [int8]
      omega
    refine ⟨?_, fun id => ?_, hend, decimal_nonneg _⟩
    · rw [Plain, hform]
      exact ⟨_, _, hnumber, hposition, fun _ _ => ⟨haddress, hbit, hseven, by omega⟩⟩
    · rw [decodeTag_eq_form, hform]
      simp only [hnumber, hposition, hname]
      rw [Except.bind, Except.bind, hnarrow]
      rfl

/-- A plain name is decoded without an exception, and what is accepted is what it denotes. -/
theorem Plain.decode {name : CStr} (h : Plain name) (id : Nat) :
    ∃ tag, decodeTag id name = .ok tag ∧ ∀ area, tag.mem = some area → tag.inRange = true →
      Denotes name area tag.idx tag.bitIdx tag.byteQty := by
  rw [decodeTag_eq_form]
  rw [Plain] at h
  cases hform : formOf name with
  | unknown => exact ⟨_, rfl, fun area hmem => nomatch hmem⟩
  | bytes byteQty address =>
    rw [hform] at h
    obtain ⟨idx, hnumber, hplain⟩ := h
    obtain ⟨letter, width, rfl, hwidth⟩ := eq_of_formOf_bytes hform
    simp only [hnumber]
    refine ⟨_, rfl, fun area hmem hrange => ?_⟩
    have harea : areaOf (letter :: width :: address) = some area := hmem
    have hend : int32 (idx + byteQty) ≤ 65536 := (inRange_iff _).mp hrange
    obtain ⟨haddress, hfits⟩ := hplain (by rw [harea]; exact Option.some_ne_none area) hend
    obtain rfl := eq_decimal_of_stoi haddress hnumber
    have hpos := decimal_nonneg address
    rw [int32_eq_self (by omega) hfits] at hend
    exact .bytes harea hwidth haddress hend
  | bit address bit =>
    rw [hform] at h
    obtain ⟨idx, bitIdx, hnumber, hposition, hplain⟩ := h
    simp only [hnumber, hposition]
    refine ⟨_, rfl, fun area hmem hrange => ?_⟩
    have hend : int32 (idx + 1) ≤ 65536 := (inRange_iff _).mp hrange
    obtain ⟨letter, rfl, harea⟩ := eq_of_formOf_bit hform hmem
    have hname : areaOf (letter :: (address ++ '.' :: bit)) = some area := harea
    obtain ⟨haddress, hbit, hseven, hfits⟩ :=
      hplain (by rw [hname]; exact Option.some_ne_none area) hend
    obtain rfl := eq_decimal_of_stoi haddress hnumber
    obtain rfl := eq_decimal_of_stoi hbit hposition
    have hpos := decimal_nonneg address
    have hpos' := decimal_nonneg bit
    have hnarrow : int8 (decimal bit) = decimal bit := by
      rw [int8]
      omega
    rw [int32_eq_self (by omega) hfits] at hend
    simp only [hnarrow]
    exact .bit harea haddress hbit hseven hend

/-- A name that is refused without an exception is decoded into no block, or out of range. -/
theorem s7RegisterTag_refuses {plc : S7Plc σ} {counter : Nat} {name : CStr}
    (h : (plc.s7RegisterTag counter name).1 = .ok (-1)) :
    ∃ tag, decodeTag counter name = .ok tag ∧ ∀ area, tag.mem = some area → tag.inRange = false := by
  rw [S7Plc.s7RegisterTag] at h
  cases hdecode : decodeTag counter name with
  | error e =>
    rw [hdecode] at h
    cases h
  | ok tag =>
    rw [hdecode] at h
    refine ⟨tag, rfl, fun area hmem => ?_⟩
    simp only [hmem] at h
    by_cases hrange : tag.inRange = true
    · rw [hrange] at h
      have hneg : (plc.handle tag : Int) = -1 := Except.ok.inj h
      have hpos := plc.handle_nonneg tag
      omega
    · exact Bool.not_eq_true _ |>.mp hrange

/-- A name that is refused without an exception is plain. -/
theorem plain_of_refused {plc : S7Plc σ} {counter : Nat} {name : CStr}
    (h : (plc.s7RegisterTag counter name).1 = .ok (-1)) : Plain name := by
  obtain ⟨tag, hdecode, hout⟩ := s7RegisterTag_refuses h
  rw [decodeTag_eq_form] at hdecode
  rw [Plain]
  cases hform : formOf name with
  | unknown => trivial
  | bytes byteQty address =>
    rw [hform] at hdecode
    simp only at hdecode
    cases hnumber : stoi address with
    | error e =>
      rw [hnumber] at hdecode
      cases hdecode
    | ok idx =>
      rw [hnumber] at hdecode
      obtain rfl := Except.ok.inj hdecode
      refine ⟨idx, hnumber, fun harea hend => ?_⟩
      obtain ⟨area, hsome⟩ := Option.ne_none_iff_exists'.mp harea
      have hin := (inRange_iff { identifier := counter, idx := idx, byteQty := byteQty,
                                 mem := areaOf name }).mpr hend
      exact absurd hin (Bool.not_eq_true _ |>.mpr (hout area hsome))
  | bit address bit =>
    rw [hform] at hdecode
    simp only at hdecode
    cases hnumber : stoi address with
    | error e =>
      rw [hnumber] at hdecode
      cases hdecode
    | ok idx =>
      cases hposition : stoi bit with
      | error e =>
        rw [hnumber, hposition] at hdecode
        cases hdecode
      | ok bitIdx =>
        rw [hnumber, hposition] at hdecode
        obtain rfl := Except.ok.inj hdecode
        refine ⟨idx, bitIdx, hnumber, hposition, fun harea hend => ?_⟩
        obtain ⟨area, hsome⟩ := Option.ne_none_iff_exists'.mp harea
        have hin := (inRange_iff { identifier := counter, idx := idx, bitIdx := int8 bitIdx,
                                   byteQty := 1, mem := areaOf name }).mpr hend
        exact absurd hin (Bool.not_eq_true _ |>.mpr (hout area hsome))

/-- A plain name is registered as what it denotes, or refused and denotes nothing. -/
theorem s7RegisterTag_plain {name : CStr} (h : Plain name) (plc : S7Plc σ) (counter : Nat) :
    (∃ area idx bitIdx byteQty handle, Denotes name area idx bitIdx byteQty ∧ 0 ≤ handle ∧
      plc.s7RegisterTag counter name =
        (.ok handle, plc.addTag area (denotedTag counter area idx bitIdx byteQty))) ∨
    ((∀ area idx bitIdx byteQty, ¬ Denotes name area idx bitIdx byteQty) ∧
      plc.s7RegisterTag counter name = (.ok (-1), plc)) := by
  obtain ⟨tag, hdecode, haccepted⟩ := h.decode counter
  by_cases hin : ∃ area, tag.mem = some area ∧ tag.inRange = true
  · left
    obtain ⟨area, hmem, hrange⟩ := hin
    have hdenotes := haccepted area hmem hrange
    have htag : tag = denotedTag counter area tag.idx tag.bitIdx tag.byteQty :=
      Except.ok.inj (hdecode.symm.trans (hdenotes.decode.2.1 counter))
    refine ⟨area, tag.idx, tag.bitIdx, tag.byteQty, plc.handle tag, hdenotes, plc.handle_nonneg tag, ?_⟩
    rw [← htag, S7Plc.s7RegisterTag, hdecode]
    simp only [hmem, hrange, Bool.not_true, Bool.false_eq_true, if_false]
  · right
    constructor
    · intro area idx bitIdx byteQty hdenotes
      obtain ⟨-, hdecode', hend, hpos⟩ := hdenotes.decode
      obtain rfl := Except.ok.inj (hdecode.symm.trans (hdecode' counter))
      refine hin ⟨area, rfl, (inRange_iff _).mpr ?_⟩
      show int32 (idx + byteQty) ≤ 65536
      rw [int32_eq_self (by omega) (by omega)]
      exact hend
    · rw [S7Plc.s7RegisterTag, hdecode]
      cases hmem : tag.mem with
      | none => simp only [hmem]
      | some area =>
        have hrange : tag.inRange = false := by
          rw [← Bool.not_eq_true]
          exact fun hrange => hin ⟨area, hmem, hrange⟩
        simp only [hmem, hrange, Bool.not_false, if_true]

/-- `S7_tag_create` on a host with a connection follows the grammar exactly for the plain names. -/
theorem create_grammar (net : Net σ) (s : S7State σ) (host name : CStr)
    (hhost : ∃ plc ∈ s.s7Plcs, plc.plcHostName = host) :
    Follows net s host name ↔ Plain name := by
  obtain ⟨plc₀, hmem, hplc₀⟩ := hhost
  rcases s7TagCreate_cases net s host name with ⟨pre, plc, post, hsplit, hplc, -, hcreate⟩ | ⟨hnone, -⟩
  · rw [Follows, hcreate]
    constructor
    · rintro (⟨_, _, _, _, _, _, _, _, hdenotes, -⟩ | ⟨-, hrefused, -⟩)
      · exact hdenotes.decode.1
      · exact plain_of_refused hrefused
    · intro hplain
      rcases s7RegisterTag_plain hplain plc s.tagIdCounter with
        ⟨area, idx, bitIdx, byteQty, h, hdenotes, hpos, hregister⟩ | ⟨hnot, hregister⟩
      · exact .inl ⟨area, idx, bitIdx, byteQty, h, pre, plc, post, hdenotes, hpos, hsplit, hplc, by
          rw [hregister]⟩
      · exact .inr ⟨hnot, by rw [hregister], by rw [hregister]; exact hsplit.symm⟩
  · exact absurd hplc₀ (hnone plc₀ hmem)

/-- A library with a connection to one host. -/
def oneHost : S7State Unit := { s7Plcs := [S7Plc.new deadNet 0 "plc".toList] }

/-- A word in the area of the flags. -/
theorem create_grammar_word : Follows deadNet oneHost "plc".toList "MW5".toList :=
  (create_grammar deadNet oneHost "plc".toList "MW5".toList
    ⟨S7Plc.new deadNet 0 "plc".toList, List.mem_singleton_self _, rfl⟩).mpr
      ⟨5, rfl, fun _ _ => ⟨⟨List.cons_ne_nil _ _, fun c hc => by
        rw [List.mem_singleton.mp hc]
        rfl⟩, by omega⟩⟩

/-- A name without an address raises an exception. -/
theorem create_throws :
    (∃ plc ∈ oneHost.s7Plcs, plc.plcHostName = "plc".toList) ∧
      (s7TagCreate deadNet oneHost "plc".toList "MB".toList).1 = .error .invalidArgument ∧
      ¬ Follows deadNet oneHost "plc".toList "MB".toList := by
  have hthrows : (s7TagCreate deadNet oneHost "plc".toList "MB".toList).1 =
      .error .invalidArgument := by rfl
  refine ⟨⟨S7Plc.new deadNet 0 "plc".toList, List.mem_singleton_self _, rfl⟩, hthrows, ?_⟩
  rintro (⟨_, _, _, _, _, _, _, _, -, -, -, -, hcreate⟩ | ⟨-, hrefused, -⟩)
  · rw [hcreate] at hthrows
    cases hthrows
  · rw [hrefused] at hthrows
    cases hthrows

end OipComms.S7
