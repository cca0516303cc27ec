import Mathlib.Data.Finset.Lattice.Lemmas
import Mathlib.Data.Finset.Option
import OipComms.Basic
import OipComms.Lib.Custody
import OipComms.Lib.Run

/-!
# The engine of a soft PLC

`SoftPlcEngine` runs the programs of a group in a JavaScript runtime of its own, through the object
`OipPlc` that its bundle leaves in the global scope. Each value QuickJS hands out counts references,
and a function has to give back each value it was handed, on each of its ways out: the bundle may
throw, leave no object, or have a method that throws or is not there.

QuickJS is a parameter, with a state of its own; `script` is a small runtime in its place.
-/

namespace OipComms.SoftPlc

open Custody Run

/-- QuickJS, as the engine uses it: `σ` is what a runtime with its context remembers, `α` a value.
The value `JS_UNDEFINED` counts no references. -/
structure QuickJs (σ α : Type) where
  newContext : σ
  undefined : α
  isUndefined : α → Bool
  isObject : α → Bool
  isException : α → Bool
  hasRefCount : α → Bool
  eval : CStr → σ → α × σ
  getGlobalObject : σ → α × σ
  getPropertyStr : α → CStr → σ → α × σ
  call : α → α → List α → σ → α × σ
  getException : σ → α × σ
  toCString : α → σ → Option CStr × σ
  toInt32 : α → σ → Int × σ
  newStringLen : CStr → σ → α × σ
  newInt32 : Int → σ → α × σ
  newFloat64 : Rat → σ → α × σ
  undefined_undefined : isUndefined undefined = true
  undefined_counts : ∀ a, isUndefined a = true → hasRefCount a = false

/-- What QuickJS hands out: the runtime, its context, references to values, and texts. -/
inductive JsRef
  | runtime
  | context
  | value (n : Nat)
  | text (n : Nat)
  deriving DecidableEq, Repr

/-- A `JSValue`, with the reference that comes with it, if it counts them. -/
structure JsValue (α : Type) where
  data : α
  ref : Option Nat := none

/-- `SoftPlcEngine::Impl`, with the number of the next reference and what was done with those there
are. -/
structure Impl (σ α : Type) where
  ctx : σ
  api : JsValue α
  lastError : CStr := []
  next : Nat := 1
  events : List (Event JsRef) := []

namespace Impl

variable {σ α : Type} (js : QuickJs σ α) (s : Impl σ α)

/-- Something is done with what was handed out. -/
def does (es : List (Event JsRef)) : Impl σ α := { s with events := s.events ++ es }

/-- QuickJS answers with a value. -/
def handed (answer : α × σ) : JsValue α × Impl σ α :=
  if js.hasRefCount answer.1 then
    ({ data := answer.1, ref := some s.next },
      { s with ctx := answer.2, next := s.next + 1 }.does [.acquire (.value s.next)])
  else ({ data := answer.1 }, { s with ctx := answer.2 })

/-- A value as a call uses it. -/
def uses (v : JsValue α) : List (Event JsRef) := v.ref.toList.map fun n => .use (.value n)

/-- `JS_FreeValue`. -/
def freeValue (v : JsValue α) : Impl σ α :=
  s.does (v.ref.toList.map fun n => .release (.value n))

/-- `JS_ToCString`, with the text copied and given back by `JS_FreeCString`. -/
def copyText (v : JsValue α) : Option CStr × Impl σ α :=
  let (text, ctx) := js.toCString v.data s.ctx
  let s := { s with ctx := ctx }.does (uses v)
  match text with
  | none => (none, s)
  | some text =>
    (some text, { s with next := s.next + 1 }.does
      [.acquire (.text s.next), .use (.text s.next), .release (.text s.next)])

/-- `capture_exception`. -/
def captureException : Impl σ α :=
  let (ex, s) := s.handed js (js.getException s.ctx)
  let (msg, s) := s.copyText js ex
  { s with lastError := msg.getD "soft_plc: unknown JS exception".toList }.freeValue ex

/-- `call`. -/
def call (method : CStr) (args : List (JsValue α)) : JsValue α × Impl σ α :=
  if !js.isObject s.api.data then
    ({ data := js.undefined }, { s with lastError := "soft_plc: bundle not loaded".toList })
  else
    let (fn, s) := (s.does (uses s.api)).handed js (js.getPropertyStr s.api.data method s.ctx)
    let (ret, s) := (s.does (uses fn ++ uses s.api ++ args.flatMap uses)).handed js
      (js.call fn.data s.api.data (args.map JsValue.data) s.ctx)
    let s := s.freeValue fn
    if js.isException ret.data then
      ({ data := js.undefined }, (s.captureException js).freeValue ret)
    else (ret, s)

/-- `to_std`. -/
def toStd (v : JsValue α) (fallback : CStr) : CStr × Impl σ α :=
  let (text, s) := s.copyText js v
  (text.getD fallback, s)

/-! ## The engine -/

/-- The constructor. -/
def new : Impl σ α :=
  { ctx := js.newContext, api := { data := js.undefined }
    events := [.acquire .runtime, .acquire .context] }

/-- The destructor: what was done when it returns. -/
def delete : List (Event JsRef) :=
  ((if js.isUndefined s.api.data then s else s.freeValue s.api).does
    [.release .context, .release .runtime]).events

/-- `load_bundle`. -/
def loadBundle (bundle : CStr) : Bool × Impl σ α :=
  let (r, s) := s.handed js (js.eval bundle s.ctx)
  if js.isException r.data then (false, (s.captureException js).freeValue r)
  else
    let s := s.freeValue r
    let (global, s) := s.handed js (js.getGlobalObject s.ctx)
    let s := if js.isUndefined s.api.data then s else s.freeValue s.api
    let (api, s) := (s.does (uses global)).handed js
      (js.getPropertyStr global.data "OipPlc".toList s.ctx)
    let s := { s with api := api }.freeValue global
    if !js.isObject api.data then
      (false, { s with lastError := "soft_plc: globalThis.OipPlc missing after eval".toList })
    else (true, s)

/-- A method that takes a program, or its source. -/
def callOne (method : CStr) (answer : α × σ) : JsValue α × Impl σ α :=
  let (arg, s) := s.handed js answer
  let (ret, s) := s.call js method [arg]
  (ret, s.freeValue arg)

/-- `create`. -/
def create (source : CStr) : Int × Impl σ α :=
  let (ret, s) := s.callOne js "create".toList (js.newStringLen source s.ctx)
  let (handle, ctx) := js.toInt32 ret.data s.ctx
  (handle, ({ s with ctx := ctx }.does (uses ret)).freeValue ret)

/-- A method whose answer is a text. -/
def textOf (method : CStr) (handle : Int) : CStr × Impl σ α :=
  let (ret, s) := s.callOne js method (js.newInt32 handle s.ctx)
  let (out, s) := s.toStd js ret "\x7b\x7d".toList
  (out, s.freeValue ret)

/-- `meta`. -/
def metaText (handle : Int) : CStr × Impl σ α := s.textOf js "meta".toList handle

/-- `watch`. -/
def watch (handle : Int) : CStr × Impl σ α := s.textOf js "watch".toList handle

/-- `step`. -/
def step (handle : Int) (inputsJson : CStr) (dt : Rat) : CStr × Impl σ α :=
  let (arg, s) := s.handed js (js.newInt32 handle s.ctx)
  let (arg', s) := s.handed js (js.newStringLen inputsJson s.ctx)
  let (arg'', s) := s.handed js (js.newFloat64 dt s.ctx)
  let (ret, s) := s.call js "step".toList [arg, arg', arg'']
  let s := ((s.freeValue arg).freeValue arg').freeValue arg''
  let (out, s) := s.toStd js ret "\x7b\x7d".toList
  (out, s.freeValue ret)

/-- `destroy`. -/
def destroy (handle : Int) : Impl σ α :=
  let (ret, s) := s.callOne js "destroy".toList (js.newInt32 handle s.ctx)
  s.freeValue ret

/-- `error`. -/
def error : CStr × Impl σ α :=
  if js.isObject s.api.data then
    let (ret, s) := s.call js "error".toList []
    let (e, s) := s.toStd js ret []
    let s := s.freeValue ret
    if e ≠ [] then (e, s) else (s.lastError, { s with lastError := [] })
  else (s.lastError, { s with lastError := [] })

end Impl

/-- What a group calls. -/
inductive EngineOp
  | loadBundle (bundle : CStr)
  | create (source : CStr)
  | metaText (handle : Int)
  | step (handle : Int) (inputsJson : CStr) (dt : Rat)
  | watch (handle : Int)
  | destroy (handle : Int)
  | error

/-- A call, without its answer. -/
def Impl.after {σ α : Type} (js : QuickJs σ α) (s : Impl σ α) : EngineOp → Impl σ α
  | .loadBundle bundle => (s.loadBundle js bundle).2
  | .create source => (s.create js source).2
  | .metaText handle => (s.metaText js handle).2
  | .step handle inputsJson dt => (s.step js handle inputsJson dt).2
  | .watch handle => (s.watch js handle).2
  | .destroy handle => s.destroy js handle
  | .error => (s.error js).2

/-! ## What is held -/

/-- The number of a reference. There is one runtime, with one context. -/
def JsRef.number : JsRef → Nat
  | .runtime | .context => 0
  | .value n | .text n => n

/-- The reference that comes with a value. -/
def refs {α : Type} (v : JsValue α) : Finset JsRef := (v.ref.map JsRef.value).toFinset

/-- The runtime and its context. -/
def core : Finset JsRef := {.runtime, .context}

namespace Impl

variable {σ α : Type} {js : QuickJs σ α} {s : Impl σ α} {held : Finset JsRef} {v : JsValue α}

/-- All that was done is in order, and this is held. -/
def Has (s : Impl σ α) (held : Finset JsRef) : Prop := Holding JsRef.number s.events s.next held

/-- The one reference a value has, if it has one. -/
theorem mem_refs {r : JsRef} : r ∈ refs v ↔ ∃ n, v.ref = some n ∧ r = .value n := by
  rw [refs, Option.mem_toFinset, Option.mem_def, Option.map_eq_some_iff]
  simp only [eq_comm]

theorem refs_of_none (h : v.ref = none) : refs v = ∅ := by
  rw [refs, h]
  rfl

/-- A value that is handed out is new; a value that counts no references has none. -/
theorem Has.handed (h : s.Has held) (js : QuickJs σ α) (answer : α × σ) :
    (s.handed js answer).2.Has (refs (s.handed js answer).1 ∪ held) ∧
      (∀ r ∈ refs (s.handed js answer).1, r ∉ held) ∧
      (s.handed js answer).1.data = answer.1 ∧ (s.handed js answer).2.api = s.api ∧
      (js.hasRefCount answer.1 = false → (s.handed js answer).1.ref = none) := by
  rw [Impl.handed]
  split
  · rename_i hcounts
    refine ⟨?_, fun r hr => ?_, rfl, rfl, fun hno => absurd (hno.symm.trans hcounts)
      Bool.false_ne_true⟩
    · exact h.acquire (r := .value s.next) rfl
    · obtain ⟨n, hn, rfl⟩ := mem_refs.mp hr
      obtain rfl := Option.some.inj hn
      exact h.not_mem rfl
  · refine ⟨?_, fun r hr => ?_, rfl, rfl, fun _ => rfl⟩
    · rw [refs_of_none rfl, Finset.empty_union]
      exact h
    · rw [refs_of_none rfl] at hr
      exact absurd hr (Finset.notMem_empty r)

/-- A value that is given back is no longer held. -/
theorem Has.freeValue (h : s.Has (refs v ∪ held)) (hnew : ∀ r ∈ refs v, r ∉ held) :
    (s.freeValue v).Has held := by
  rw [Impl.freeValue]
  cases href : v.ref with
  | none =>
    rw [refs_of_none href, Finset.empty_union] at h
    show Holding _ (s.events ++ []) _ _
    rw [List.append_nil]
    exact h
  | some n =>
    have hmem : JsRef.value n ∈ refs v := mem_refs.mpr ⟨n, href, rfl⟩
    have hrefs : refs v = {.value n} := by
      rw [refs, href]
      rfl
    have hgone := Holding.release h (Finset.mem_union_left held hmem)
    rw [hrefs, ← Finset.insert_eq, Finset.erase_insert (hnew _ hmem)] at hgone
    exact hgone

/-- What is new to two things is new to each. -/
theorem new_union {a b c : Finset JsRef} (ha : ∀ r ∈ a, r ∉ b ∪ c) (hb : ∀ r ∈ b, r ∉ c) :
    ∀ r ∈ a ∪ b, r ∉ c := by
  intro r hr hmem
  rcases Finset.mem_union.mp hr with hr | hr
  · exact ha r hr (Finset.mem_union_right b hmem)
  · exact hb r hr hmem

/-- A value is given back before those that were handed out after it. -/
theorem Has.freeBelow {above : Finset JsRef} (h : s.Has (above ∪ (refs v ∪ held)))
    (habove : ∀ r ∈ above, r ∉ refs v ∪ held) (hnew : ∀ r ∈ refs v, r ∉ held) :
    (s.freeValue v).Has (above ∪ held) ∧ ∀ r ∈ above, r ∉ held := by
  rw [Finset.union_left_comm] at h
  refine ⟨h.freeValue fun r hr hmem => ?_, fun r hr hmem => ?_⟩
  · rcases Finset.mem_union.mp hmem with hmem | hmem
    · exact habove r hmem (Finset.mem_union_left held hr)
    · exact hnew r hr hmem
  · exact habove r hr (Finset.mem_union_right _ hmem)

/-- A value that is held may be used. -/
theorem Has.uses (h : s.Has held) (hv : refs v ⊆ held) : (s.does (Impl.uses v)).Has held := by
  have hused := Holding.uses h fun r (hr : r ∈ v.ref.toList.map .value) => by
    obtain ⟨n, hn, rfl⟩ := List.mem_map.mp hr
    exact hv (mem_refs.mpr ⟨n, Option.mem_toList.mp hn, rfl⟩)
  rw [List.map_map] at hused
  exact hused

/-- Things that are done in two parts are done one after the other. -/
theorem does_append (s : Impl σ α) (es es' : List (Event JsRef)) :
    s.does (es ++ es') = (s.does es).does es' := by
  simp only [Impl.does, List.append_assoc]

/-- The text of a value is copied, and given back at once. -/
theorem Has.copyText (h : s.Has held) (js : QuickJs σ α) (hv : refs v ⊆ held) :
    (s.copyText js v).2.Has held ∧ (s.copyText js v).2.api = s.api := by
  have hused := h.uses hv
  rw [Impl.copyText]
  simp only
  split
  · exact ⟨hused, rfl⟩
  · refine ⟨?_, rfl⟩
    have htext := ((Holding.acquire hused (r := .text s.next) rfl).use
      (Finset.mem_insert_self _ _)).release (Finset.mem_insert_self _ _)
    rw [Finset.erase_insert (Holding.not_mem hused rfl), List.append_assoc, List.append_assoc] at htext
    exact htext

/-- The exception is given back with its text. -/
theorem Has.captureException (h : s.Has held) (js : QuickJs σ α) :
    (s.captureException js).Has held ∧ (s.captureException js).api = s.api := by
  rw [Impl.captureException]
  obtain ⟨hex, hnew, -, hapi, -⟩ := h.handed js (js.getException s.ctx)
  generalize s.handed js (js.getException s.ctx) = r at *
  obtain ⟨ex, s'⟩ := r
  obtain ⟨hmsg, hapi'⟩ := hex.copyText js (v := ex) Finset.subset_union_left
  simp only at hapi hnew ⊢
  generalize s'.copyText js ex = r at *
  obtain ⟨msg, s''⟩ := r
  exact ⟨Has.freeValue (s := { s'' with lastError := _ }) hmsg hnew, hapi'.trans hapi⟩

/-- Values that are held may be used. -/
theorem Has.usesAll (h : s.Has held) {args : List (JsValue α)} (hargs : ∀ v ∈ args, refs v ⊆ held) :
    (s.does (args.flatMap Impl.uses)).Has held := by
  induction args generalizing s with
  | nil =>
    show Holding _ (s.events ++ []) _ _
    rw [List.append_nil]
    exact h
  | cons v args ih =>
    rw [List.flatMap_cons, does_append]
    exact ih (h.uses (hargs v List.mem_cons_self)) fun v' hv' =>
      hargs v' (List.mem_cons_of_mem v hv')

/-- What a call leaves: the value it answers with, and all that was held before. -/
structure Answers (s : Impl σ α) (held : Finset JsRef) (r : JsValue α × Impl σ α) : Prop where
  has : r.2.Has (refs r.1 ∪ held)
  new : ∀ x ∈ refs r.1, x ∉ held
  api : r.2.api = s.api

/-- There is no value where something went wrong. -/
theorem Answers.undefined {s' : Impl σ α} (h : s'.Has held) (hapi : s'.api = s.api) :
    Answers s held ({ data := js.undefined }, s') := by
  refine ⟨?_, fun x hx => ?_, hapi⟩
  · rw [refs_of_none rfl, Finset.empty_union]
    exact h
  · rw [refs_of_none rfl] at hx
    exact absurd hx (Finset.notMem_empty x)

/-- A call answers with a value, or with none where there is no object or the method throws. -/
theorem Has.call (h : s.Has held) (js : QuickJs σ α) (method : CStr) (args : List (JsValue α))
    (hapi : refs s.api ⊆ held) (hargs : ∀ v ∈ args, refs v ⊆ held) :
    Answers s held (s.call js method args) := by
  rw [Impl.call]
  split
  · exact .undefined h rfl
  obtain ⟨hfn, hnew, -, hsame, -⟩ := (h.uses hapi).handed js
    (js.getPropertyStr s.api.data method s.ctx)
  simp only
  generalize Impl.handed js (s.does (Impl.uses s.api)) _ = r at *
  obtain ⟨fn, s₁⟩ := r
  simp only at hfn hnew hsame ⊢
  have hsame : s₁.api = s.api := hsame
  have hkept : held ⊆ refs fn ∪ held := Finset.subset_union_right
  have hused : (s₁.does (Impl.uses fn ++ Impl.uses s₁.api ++ args.flatMap Impl.uses)).Has
      (refs fn ∪ held) := by
    rw [does_append, does_append]
    exact ((hfn.uses Finset.subset_union_left).uses (hsame ▸ hapi.trans hkept)).usesAll
      fun v hv => (hargs v hv).trans hkept
  obtain ⟨hret, hnew', -, hsame', -⟩ := hused.handed js
    (js.call fn.data s₁.api.data (args.map JsValue.data) s₁.ctx)
  generalize Impl.handed js (s₁.does _) _ = r at *
  obtain ⟨ret, s₂⟩ := r
  simp only at hret hnew' hsame' ⊢
  have hsame' : s₂.api = s.api := hsame'.trans hsame
  obtain ⟨hfreed, hnew'⟩ := hret.freeBelow hnew' hnew
  split
  · obtain ⟨hcaptured, hcapturedApi⟩ := hfreed.captureException js
    exact .undefined (hcaptured.freeValue hnew') (hcapturedApi.trans hsame')
  · exact ⟨hfreed, hnew', hsame'⟩

/-- The argument is given back after the call. -/
theorem Has.callOne (h : s.Has held) (js : QuickJs σ α) (method : CStr) (answer : α × σ)
    (hapi : refs s.api ⊆ held) : Answers s held (s.callOne js method answer) := by
  rw [Impl.callOne]
  obtain ⟨harg, hnew, -, hsame, -⟩ := h.handed js answer
  generalize s.handed js answer = r at *
  obtain ⟨arg, s₁⟩ := r
  simp only at harg hnew hsame ⊢
  have hkept : held ⊆ refs arg ∪ held := Finset.subset_union_right
  have hcall := harg.call js method [arg] (hsame ▸ hapi.trans hkept) fun v hv => by
    rw [List.mem_singleton.mp hv]
    exact Finset.subset_union_left
  generalize s₁.call js method [arg] = r at *
  obtain ⟨ret, s₂⟩ := r
  obtain ⟨hret, hnew', hsame'⟩ := hcall
  simp only at hret hnew' hsame' ⊢
  obtain ⟨hfreed, hnew'⟩ := hret.freeBelow hnew' hnew
  exact ⟨hfreed, hnew', hsame'.trans hsame⟩

/-- A function leaves what was held, and the object of the bundle. -/
structure Leaves (s : Impl σ α) (held : Finset JsRef) (s' : Impl σ α) : Prop where
  has : s'.Has held
  api : s'.api = s.api

/-- An answer that is not needed is given back. -/
theorem Answers.freed {r : JsValue α × Impl σ α} (h : Answers s held r) :
    Leaves s held (r.2.freeValue r.1) := ⟨h.has.freeValue h.new, h.api⟩

/-- The answer of a call is copied, and given back. -/
theorem Answers.copied {r : JsValue α × Impl σ α} (h : Answers s held r) (js : QuickJs σ α)
    (fallback : CStr) : Leaves s held ((r.2.toStd js r.1 fallback).2.freeValue r.1) := by
  obtain ⟨hcopied, hsame⟩ := h.has.copyText js (v := r.1) Finset.subset_union_left
  exact ⟨Has.freeValue hcopied h.new, hsame.trans h.api⟩

section
variable (h : s.Has held) (hapi : refs s.api ⊆ held)
include h hapi

/-- `create` leaves what was held. -/
theorem Has.create (js : QuickJs σ α) (source : CStr) : Leaves s held (s.create js source).2 := by
  have hcall := h.callOne js "create".toList (js.newStringLen source s.ctx) hapi
  rw [Impl.create]
  generalize s.callOne js "create".toList (js.newStringLen source s.ctx) = r at *
  obtain ⟨ret, s'⟩ := r
  exact ⟨Has.freeValue (Has.uses (s := { s' with ctx := _ }) hcall.has Finset.subset_union_left)
    hcall.new, hcall.api⟩

theorem Has.textOf (js : QuickJs σ α) (method : CStr) (handle : Int) :
    Leaves s held (s.textOf js method handle).2 :=
  (h.callOne js method (js.newInt32 handle s.ctx) hapi).copied js "\x7b\x7d".toList

theorem Has.destroy (js : QuickJs σ α) (handle : Int) : Leaves s held (s.destroy js handle) :=
  (h.callOne js "destroy".toList (js.newInt32 handle s.ctx) hapi).freed

theorem Has.error (js : QuickJs σ α) : Leaves s held (s.error js).2 := by
  rw [Impl.error]
  split
  · have hcopied := (h.call js "error".toList [] hapi fun v hv =>
      absurd hv List.not_mem_nil).copied js []
    simp only
    generalize s.call js "error".toList [] = r at *
    split
    · exact hcopied
    · exact ⟨hcopied.has, hcopied.api⟩
  · exact ⟨h, rfl⟩

/-- `step` leaves what was held. -/
theorem Has.step (js : QuickJs σ α) (handle : Int) (inputsJson : CStr) (dt : Rat) :
    Leaves s held (s.step js handle inputsJson dt).2 := by
  rw [Impl.step]
  obtain ⟨harg, hnew, -, hsame, -⟩ := h.handed js (js.newInt32 handle s.ctx)
  generalize s.handed js (js.newInt32 handle s.ctx) = r at *
  obtain ⟨arg, s₁⟩ := r
  simp only at harg hnew hsame ⊢
  obtain ⟨harg', hnew', -, hsame', -⟩ := harg.handed js (js.newStringLen inputsJson s₁.ctx)
  generalize s₁.handed js (js.newStringLen inputsJson s₁.ctx) = r at *
  obtain ⟨arg', s₂⟩ := r
  simp only at harg' hnew' hsame' ⊢
  obtain ⟨harg'', hnew'', -, hsame'', -⟩ := harg'.handed js (js.newFloat64 dt s₂.ctx)
  generalize s₂.handed js (js.newFloat64 dt s₂.ctx) = r at *
  obtain ⟨arg'', s₃⟩ := r
  simp only at harg'' hnew'' hsame'' ⊢
  have hsame : s₃.api = s.api := hsame''.trans (hsame'.trans hsame)
  have hkept : refs arg ∪ held ⊆ refs arg' ∪ (refs arg ∪ held) := Finset.subset_union_right
  have hkept' : refs arg ∪ held ⊆ refs arg'' ∪ (refs arg' ∪ (refs arg ∪ held)) :=
    hkept.trans Finset.subset_union_right
  have hcall := harg''.call js "step".toList [arg, arg', arg'']
    (hsame ▸ hapi.trans (Finset.subset_union_right.trans hkept')) fun v hv => by
      rcases List.mem_cons.mp hv with rfl | hv
      · exact Finset.subset_union_left.trans hkept'
      rcases List.mem_cons.mp hv with rfl | hv
      · exact Finset.subset_union_left.trans Finset.subset_union_right
      · rw [List.mem_singleton.mp hv]
        exact Finset.subset_union_left
  generalize s₃.call js "step".toList [arg, arg', arg''] = r at *
  obtain ⟨ret, s₄⟩ := r
  obtain ⟨hret, hnewRet, hsameRet⟩ := hcall
  simp only at hret hnewRet hsameRet ⊢
  -- the arguments are given back in the order they were made in
  have habove := new_union hnewRet hnew''
  rw [← Finset.union_assoc, ← Finset.union_assoc] at hret
  obtain ⟨hfreed, hnew₁⟩ := hret.freeBelow (new_union habove hnew') hnew
  have hheld : ∀ x ∈ refs arg', x ∉ held := fun x hx => hnew₁ x (Finset.mem_union_right _ hx)
  have habove' : ∀ x ∈ refs ret ∪ refs arg'', x ∉ refs arg' ∪ held := fun x hx hmem => by
    rcases Finset.mem_union.mp hmem with hmem | hmem
    · exact habove x hx (Finset.mem_union_left _ hmem)
    · exact hnew₁ x (Finset.mem_union_left _ hx) hmem
  rw [Finset.union_assoc] at hfreed
  obtain ⟨hfreed', hnew₂⟩ := hfreed.freeBelow habove' hheld
  have habove'' : ∀ x ∈ refs ret, x ∉ refs arg'' ∪ held := fun x hx hmem => by
    rcases Finset.mem_union.mp hmem with hmem | hmem
    · exact hnewRet x hx (Finset.mem_union_left _ hmem)
    · exact hnew₂ x (Finset.mem_union_left _ hx) hmem
  rw [Finset.union_assoc] at hfreed'
  obtain ⟨hfreed'', hnew₃⟩ := hfreed'.freeBelow habove'' fun x hx =>
    hnew₂ x (Finset.mem_union_right _ hx)
  have hanswers : Answers s held (ret, ((s₄.freeValue arg).freeValue arg').freeValue arg'') :=
    ⟨hfreed'', hnew₃, hsameRet.trans hsame⟩
  exact hanswers.copied js "\x7b\x7d".toList

end

/-! ## Over a run -/

/-- Between two calls the engine holds its runtime, the context and the object of the bundle. -/
structure Owns (js : QuickJs σ α) (s : Impl σ α) : Prop where
  has : s.Has (refs s.api ∪ core)
  nothing : js.isUndefined s.api.data = true → s.api.ref = none

/-- A value is neither the runtime nor the context. -/
theorem refs_not_core (v : JsValue α) : ∀ r ∈ refs v, r ∉ core := by
  intro r hr
  obtain ⟨n, -, rfl⟩ := mem_refs.mp hr
  simp [core]

/-- The constructor holds the runtime and the context. -/
theorem Owns.new (js : QuickJs σ α) : (Impl.new js).Owns js := by
  refine ⟨?_, fun _ => rfl⟩
  rw [refs_of_none (v := (Impl.new js).api) rfl, Finset.empty_union]
  have hheld : custody ∅ [.acquire JsRef.runtime, .acquire .context] = some core := by decide
  refine ⟨hheld, fun r hr => ?_⟩
  rcases Finset.mem_insert.mp hr with rfl | hr
  · exact Nat.one_pos
  · rw [Finset.mem_singleton.mp hr]
    exact Nat.one_pos

/-- A call that leaves what was held leaves it to the engine. -/
theorem Owns.leaves {s' : Impl σ α} (h : s.Owns js) (hleaves : Leaves s (refs s.api ∪ core) s') :
    s'.Owns js := by
  obtain ⟨hhas, hsame⟩ := hleaves
  rw [← hsame] at hhas
  exact ⟨hhas, hsame ▸ h.nothing⟩

/-- The object of the last bundle, if any, is given back. -/
theorem Owns.dropApi (js : QuickJs σ α) {above : Finset JsRef} (h : s.Has (above ∪ (refs s.api ∪ core)))
    (hnew : ∀ r ∈ above, r ∉ refs s.api ∪ core)
    (hnothing : js.isUndefined s.api.data = true → s.api.ref = none) :
    (if js.isUndefined s.api.data then s else s.freeValue s.api).Has (above ∪ core) ∧
      ∀ r ∈ above, r ∉ core := by
  split
  · rename_i hundefined
    rw [refs_of_none (hnothing hundefined), Finset.empty_union] at h hnew
    exact ⟨h, hnew⟩
  · exact h.freeBelow hnew (refs_not_core s.api)

/-- A bundle leaves its object in the place of the one before, or the one before. -/
theorem Owns.loadBundle (h : s.Owns js) (bundle : CStr) : (s.loadBundle js bundle).2.Owns js := by
  rw [Impl.loadBundle]
  obtain ⟨hr, hnew, -, hsame, -⟩ := h.has.handed js (js.eval bundle s.ctx)
  generalize s.handed js (js.eval bundle s.ctx) = x at *
  obtain ⟨r, s₁⟩ := x
  simp only at hr hnew hsame ⊢
  split
  · obtain ⟨hcaptured, hcapturedApi⟩ := hr.captureException js
    exact h.leaves ⟨hcaptured.freeValue hnew, hcapturedApi.trans hsame⟩
  have hfreed := h.leaves ⟨hr.freeValue hnew, hsame⟩
  generalize s₁.freeValue r = s₂ at *
  obtain ⟨hglobal, hnew', -, hsame', -⟩ := hfreed.has.handed js (js.getGlobalObject s₂.ctx)
  generalize s₂.handed js (js.getGlobalObject s₂.ctx) = x at *
  obtain ⟨global, s₃⟩ := x
  simp only at hglobal hnew' hsame' ⊢
  rw [← hsame'] at hglobal hnew'
  obtain ⟨hdropped, hglobalNew⟩ := Owns.dropApi js hglobal hnew' (hsame' ▸ hfreed.nothing)
  generalize (if js.isUndefined s₃.api.data then s₃ else s₃.freeValue s₃.api) = s₄ at *
  obtain ⟨hapi, hapiNew, hdata, -, hcounts⟩ := (hdropped.uses Finset.subset_union_left).handed js
    (js.getPropertyStr global.data "OipPlc".toList s₄.ctx)
  generalize Impl.handed js (s₄.does _) _ = x at *
  obtain ⟨api, s₅⟩ := x
  simp only at hapi hapiNew hdata hcounts ⊢
  obtain ⟨hkept, -⟩ := hapi.freeBelow hapiNew hglobalNew
  have howns : ({ s₅ with api := api }.freeValue global).Owns js :=
    ⟨hkept, fun hundefined => hcounts (js.undefined_counts _ (hdata ▸ hundefined))⟩
  split
  · exact ⟨howns.has, howns.nothing⟩
  · exact howns

/-- Each call leaves the engine what it owns. -/
theorem Owns.after (h : s.Owns js) (op : EngineOp) : (s.after js op).Owns js := by
  have hapi : refs s.api ⊆ refs s.api ∪ core := Finset.subset_union_left
  cases op with
  | loadBundle bundle => exact h.loadBundle bundle
  | create source => exact h.leaves (h.has.create hapi js source)
  | metaText handle => exact h.leaves (h.has.textOf hapi js _ handle)
  | step handle inputsJson dt => exact h.leaves (h.has.step hapi js handle inputsJson dt)
  | watch handle => exact h.leaves (h.has.textOf hapi js _ handle)
  | destroy handle => exact h.leaves (h.has.destroy hapi js handle)
  | error => exact h.leaves (h.has.error hapi js)

/-- The destructor gives back what there is. -/
theorem Owns.delete (h : s.Owns js) : custody ∅ (s.delete js) = some ∅ := by
  rw [Impl.delete]
  have hhas := h.has
  rw [← Finset.empty_union (refs s.api ∪ core)] at hhas
  have hdropped := (Owns.dropApi js hhas (fun r hr => absurd hr (Finset.notMem_empty r))
    h.nothing).1
  rw [Finset.empty_union] at hdropped
  generalize (if js.isUndefined s.api.data then s else s.freeValue s.api) = s' at *
  rw [Impl.does, custody_append, hdropped.custody]
  rfl

/-- Whatever the bundle does, its methods throw and the programs are, all that QuickJS hands the
engine is used while it is held and given back once: between two calls the engine holds its
runtime, the context and the object of the bundle, and deleted then it holds nothing. -/
theorem engine_custody (js : QuickJs σ α) (ops : List EngineOp) :
    Along (Impl.after js) (fun s => custody ∅ s.events = some (refs s.api ∪ core) ∧
      custody ∅ (s.delete js) = some ∅) (Impl.new js) ops :=
  (along_of_invariant (Impl.after js) (J := Owns js) (fun _ op h => h.after op) (.new js) ops).mono
    _ fun _ h => ⟨h.has.custody, h.delete⟩

end Impl

/-! ## A runtime -/

/-- A value of a small runtime. Texts and objects count references, numbers, `JS_UNDEFINED` and
`JS_EXCEPTION` do not. -/
inductive ScriptValue
  | undefined
  | exception
  | int (n : Int)
  | float (x : Rat)
  | text (t : CStr)
  | global
  | api
  | method (name : CStr)
  | error (message : CStr)
  deriving DecidableEq

/-- What the small runtime remembers: whether a bundle has left its object, the exception that is
pending, and the programs there are. -/
structure Script where
  loaded : Bool := false
  pending : CStr := []
  programs : Int := 0

/-- A call throws. -/
def Script.throws (s : Script) (message : CStr) : ScriptValue × Script :=
  (.exception, { s with pending := message })

/-- The methods of the object: `create` refuses an empty program, and `step` one that is not there. -/
def Script.method (s : Script) (name : CStr) (args : List ScriptValue) : ScriptValue × Script :=
  match name, args with
  | ['c', 'r', 'e', 'a', 't', 'e'], [.text []] => s.throws ['n', 'o', 'n', 'e']
  | ['c', 'r', 'e', 'a', 't', 'e'], [.text _] =>
    (.int (s.programs + 1), { s with programs := s.programs + 1 })
  | ['s', 't', 'e', 'p'], [.int handle, .text inputs, .float _] =>
    if 0 < handle ∧ handle ≤ s.programs then (.text inputs, s) else s.throws ['s', 't', 'e', 'p']
  | ['e', 'r', 'r', 'o', 'r'], [] => (.text [], s)
  | _, _ => (.undefined, s)

/-- QuickJS with a bundle that leaves its object, if it is not empty. -/
def script : QuickJs Script ScriptValue where
  newContext := {}
  undefined := .undefined
  isUndefined v := v = .undefined
  isObject
    | .global | .api | .method _ | .error _ => true
    | _ => false
  isException v := v = .exception
  hasRefCount
    | .undefined | .exception | .int _ | .float _ => false
    | _ => true
  eval bundle s := if bundle = [] then s.throws ['e', 'o', 'f'] else (.undefined, { s with loaded := true })
  getGlobalObject s := (.global, s)
  getPropertyStr v name s :=
    match v with
    | .global => (if s.loaded then .api else .undefined, s)
    | .api => (.method name, s)
    | _ => (.undefined, s)
  call fn _ args s :=
    match fn with
    | .method name => s.method name args
    | _ => s.throws ['c', 'a', 'l', 'l']
  getException s := (.error s.pending, { s with pending := [] })
  toCString v s :=
    match v with
    | .text t | .error t => (some t, s)
    | _ => (none, s)
  toInt32 v s :=
    match v with
    | .int n => (n, s)
    | _ => (0, s)
  newStringLen t s := (.text t, s)
  newInt32 n s := (.int n, s)
  newFloat64 x s := (.float x, s)
  undefined_undefined := rfl
  undefined_counts v hundefined := by
    obtain rfl := of_decide_eq_true hundefined
    rfl

/-- A bundle that throws, one that loads, a program and a scan of it, and calls whose methods throw. -/
def scriptCalls : List EngineOp :=
  [.loadBundle [], .create ['p'], .loadBundle ['o'], .create ['p'], .step 1 ['x'] (1 / 10),
    .create [], .error, .step 2 ['x'] (1 / 10), .error]

/-- The bundle is loaded, the program scanned, and the last error read; all the while the references
are in order. -/
theorem engine_custody_script :
    Along (Impl.after script) (fun s => custody ∅ s.events = some (refs s.api ∪ core) ∧
        custody ∅ (s.delete script) = some ∅) (Impl.new script) scriptCalls ∧
      let s := run (Impl.after script) (Impl.new script) (scriptCalls.take 4)
      s.api.data = .api ∧ s.ctx.programs = 1 ∧
        (s.step script 1 ['x'] (1 / 10)).1 = ['x'] ∧
        ((s.step script 2 ['x'] (1 / 10)).2.error script).1 = ['s', 't', 'e', 'p'] :=
  ⟨Impl.engine_custody script scriptCalls, by decide +kernel⟩

end OipComms.SoftPlc
