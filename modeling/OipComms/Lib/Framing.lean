import Mathlib.Data.List.Basic

/-!
# Frames in a byte stream

A stream is frames laid end to end, and a receiver sees it in pieces that respect no boundary.
`Parsed` is what a look at the front of a buffer can come to, and a `Codec` is an encoder with a
parser that takes a whole frame off the front and asks for more on a piece of one.

The one rule is `Codec.parse_stream`: as long as the buffer and the bytes still to come are the
encoding of a list of frames, the parser either takes the first frame, and what is left is the
encoding of the others, or the buffer holds less than one frame. A reader that loops over the
parser is checked with it alone, whatever the cuts.
-/

namespace OipComms.Framing

universe u v

/-- What the front of a buffer holds. -/
inductive Parsed (F : Type u) (α : Type v)
  | incomplete
  | malformed
  | frame (f : F) (rest : List α)
  deriving DecidableEq, Repr

/-- An encoder of frames with its parser. -/
structure Codec (F : Type u) (α : Type v) where
  Valid : F → Prop
  encode : F → List α
  parse : List α → Parsed F α
  parse_nil : parse [] = .incomplete
  parse_encode : ∀ f rest, Valid f → parse (encode f ++ rest) = .frame f rest
  parse_part : ∀ f part rest, Valid f → part ++ rest = encode f → rest ≠ [] →
    parse part = .incomplete

variable {F : Type u} {α : Type v}

/-- The stream of a list of frames. -/
def Codec.encodeAll (c : Codec F α) (frames : List F) : List α := frames.flatMap c.encode

@[simp] theorem Codec.encodeAll_nil (c : Codec F α) : c.encodeAll [] = [] := rfl

@[simp] theorem Codec.encodeAll_cons (c : Codec F α) (f : F) (frames : List F) :
    c.encodeAll (f :: frames) = c.encode f ++ c.encodeAll frames := List.flatMap_cons

@[simp] theorem Codec.encodeAll_append (c : Codec F α) (frames frames' : List F) :
    c.encodeAll (frames ++ frames') = c.encodeAll frames ++ c.encodeAll frames' :=
  List.flatMap_append

/-- Less than one frame: a proper part of the next frame, nothing when there is none. -/
def Codec.Trailing (c : Codec F α) (later : List F) (buf : List α) : Prop :=
  match later with
  | [] => buf = []
  | f :: _ => ∃ missing, missing ≠ [] ∧ buf ++ missing = c.encode f

/-- The parser takes the next frame off a stream, or the buffer holds less than one. -/
theorem Codec.parse_stream (c : Codec F α) {frames : List F} (hvalid : ∀ f ∈ frames, c.Valid f)
    {buf more : List α} (h : buf ++ more = c.encodeAll frames) :
    (∃ f later rest, frames = f :: later ∧ c.parse buf = .frame f rest ∧
      rest ++ more = c.encodeAll later) ∨
    (c.parse buf = .incomplete ∧ c.Trailing frames buf) := by
  cases frames with
  | nil =>
    right
    obtain rfl : buf = [] := (List.append_eq_nil_iff.mp h).1
    exact ⟨c.parse_nil, rfl⟩
  | cons f later =>
    have hf := hvalid f List.mem_cons_self
    rw [Codec.encodeAll_cons] at h
    rcases List.append_eq_append_iff.mp h with ⟨missing, hcut, hmore⟩ | ⟨rest, hcut, hmore⟩
    · by_cases hnil : missing = []
      · left
        rw [hnil, List.append_nil] at hcut
        refine ⟨f, later, [], rfl, ?_, ?_⟩
        · rw [← hcut, ← List.append_nil (c.encode f)]
          exact c.parse_encode f [] hf
        · rw [hmore, hnil]
          rfl
      · right
        exact ⟨c.parse_part f buf missing hf hcut.symm hnil, missing, hnil, hcut.symm⟩
    · left
      refine ⟨f, later, rest, rfl, ?_, hmore.symm⟩
      rw [hcut]
      exact c.parse_encode f rest hf

/-- Every piece of a stream cut anywhere is whole parts followed by a part of the next. -/
theorem prefix_flatten {parts : List (List α)} {piece : List α} (h : piece <+: parts.flatten) :
    ∃ done cut, piece = done.flatten ++ cut ∧
      (cut = [] ∧ done <+: parts ∨ ∃ f, cut <+: f ∧ done ++ [f] <+: parts) := by
  induction parts generalizing piece with
  | nil =>
    obtain rfl : piece = [] := List.prefix_nil.mp h
    exact ⟨[], [], rfl, .inl ⟨rfl, List.nil_prefix⟩⟩
  | cons f parts ih =>
    obtain ⟨rest, hrest⟩ := h
    rw [List.flatten_cons] at hrest
    rcases List.append_eq_append_iff.mp hrest with ⟨missing, hcut, _⟩ | ⟨tail, hcut, htail⟩
    · refine ⟨[], piece, rfl, .inr ⟨f, ⟨missing, hcut.symm⟩, ?_⟩⟩
      exact List.cons_prefix_cons.mpr ⟨rfl, List.nil_prefix⟩
    · obtain ⟨done, cut, hpiece, hends⟩ := ih (show tail <+: _ from ⟨rest, htail.symm⟩)
      refine ⟨f :: done, cut, ?_, ?_⟩
      · rw [hcut, hpiece, List.flatten_cons, List.append_assoc]
      · rcases hends with ⟨hnil, hdone⟩ | ⟨g, hg, hdone⟩
        · exact .inl ⟨hnil, List.cons_prefix_cons.mpr ⟨rfl, hdone⟩⟩
        · exact .inr ⟨g, hg, List.cons_prefix_cons.mpr ⟨rfl, hdone⟩⟩

/-- Parts handed over one after the other, each with how much of it was taken: when nothing is taken
after an unfinished part, what was taken is the front of the parts touched. -/
theorem flatten_taken {log : List (List α × Nat)}
    (h : log.Pairwise fun e e' => 0 < e.2 → e.2 < e.1.length → e'.2 = 0) :
    (log.flatMap fun e => e.1.take e.2) <+: ((log.filter fun e => 0 < e.2).map Prod.fst).flatten := by
  induction log with
  | nil => exact List.nil_prefix
  | cons e log ih =>
    obtain ⟨part, n⟩ := e
    obtain ⟨hafter, hlog⟩ := List.pairwise_cons.mp h
    rw [List.flatMap_cons]
    by_cases hn : n = 0
    · subst hn
      simpa using ih hlog
    · have hpos : 0 < n := Nat.pos_of_ne_zero hn
      rw [List.filter_cons_of_pos (by simpa using hpos), List.map_cons, List.flatten_cons]
      by_cases hcut : n < part.length
      · have hnone : (log.flatMap fun e => e.1.take e.2) = [] := by
          rw [List.flatMap_eq_nil_iff]
          intro e he
          rw [hafter e he hpos hcut, List.take_zero]
        rw [hnone, List.append_nil]
        exact (List.take_prefix n part).trans (List.prefix_append _ _)
      · rw [List.take_of_length_le (Nat.not_lt.mp hcut)]
        exact List.prefix_append_right_inj part |>.mpr (ih hlog)

end OipComms.Framing
