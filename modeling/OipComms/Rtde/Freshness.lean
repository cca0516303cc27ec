import OipComms.Rtde.Incoming
import OipComms.Rtde.Output

/-!
# How fresh a read is

The controller streams samples of its variables, one in each data package, and other frames between
them. A poll drains the connection and keeps the latest package only; writes go out on the same
socket in between.

So however TCP cuts the stream, and however polls, writes and registrations are ordered: all output
tags read one and the same sample, the last that has been taken off the stream, and a poll leaves no
whole frame behind (`reads_latest_sample`).
-/

namespace OipComms.Rtde

open Run

variable {V : Type} [GodotVariant V] {B : Type} [ReadAs B]
  {connect : CStr → Except String Socket} {g : TagGroup}

/-- The connection of a group. -/
def TagGroup.link (g : TagGroup) : Client := ((g.rtdeImpl.getD {}).client).getD {}

/-- The samples among frames, in order. -/
def packages (frames : List (UInt8 × List UInt8)) : List (UInt8 × List UInt8) :=
  frames.filterMap packageOf

/-- A stream of samples: its packages are of the output recipe. -/
structure Handshake.Streams (hs : Handshake connect g) (frames : List (UInt8 × List UInt8))
    (samples : List Values) : Prop where
  fits : ∀ f ∈ frames, FrameFits f
  valid : ∀ vals ∈ samples, hs.outputRecipe.Fits vals
  packages : packages frames =
    samples.map fun vals => (hs.impl.outputRecipeId, hs.outputRecipe.encode vals)

/-- The first of the frames are taken, and the group holds the last package among them. -/
structure Handshake.Holds (hs : Handshake connect g) (seen later : List (UInt8 × List UInt8))
    (g' : TagGroup) (impl : RtdeTagGroupImpl) : Prop where
  serving : hs.Serving g' impl
  feeds : Feeds later g'.link
  have_eq : impl.haveOutputData = (packages seen).getLast?.isSome
  payload : ∀ package, (packages seen).getLast? = some package → impl.outputPayload = package.2

/-! ## Writing between polls -/

/-- What is sent leaves what is to come. -/
theorem Feeds.sendFrame {later : List (UInt8 × List UInt8)} {c : Client} (h : Feeds later c)
    (type : UInt8) (payload : List UInt8) : Feeds later (c.sendFrame type payload).2 := by
  obtain ⟨s, hsocket, hmode, hup, hbytes⟩ := h
  unfold Client.sendFrame
  rw [hsocket]
  simp only
  split
  · exact ⟨s, rfl, hmode, hup, hbytes⟩
  · rcases sendLoop s.errno s.sends (frame type payload) with ⟨_ | _, accepted, errno, sends⟩
    · exact ⟨{ s with sends := sends, errno := errno, sent := s.sent ++ accepted }, rfl, hmode, hup,
        hbytes⟩
    · exact ⟨{ s with sends := sends, errno := errno, sent := s.sent ++ accepted }, rfl, hmode, hup,
        hbytes⟩

/-- A write leaves the link or sends one package over it. -/
theorem link_write (g : TagGroup) (tagName : CStr) (value : V) :
    (rtdeTagSet tagName value g).link = g.link ∨
      ∃ payload, (rtdeTagSet tagName value g).link =
        (g.link.sendInput (g.rtdeImpl.getD {}).inputRecipeId payload).2 := by
  unfold rtdeTagSet
  cases inputPackage g tagName value with
  | none => exact .inl rfl
  | some payload => exact .inr ⟨payload, rfl⟩

/-- A tag that is registered leaves the link. -/
theorem link_registerTag (g : TagGroup) (tagName : CStr) :
    (registerTag tagName g).2.link = g.link := by
  unfold registerTag
  split
  · rfl
  · cases himpl : g.rtdeImpl.bind fun impl => impl.tags[tagName]? with
    | some entry => rfl
    | none => cases parseTagIndex tagName <;> rfl

/-! ## Polling -/

variable {hs : Handshake connect g} {seen later : List (UInt8 × List UInt8)} {g' : TagGroup}
  {impl : RtdeTagGroupImpl}

/-- A poll that does not fail leaves the client it polled. -/
theorem Handshake.Serving.link_process (h : hs.Serving g' impl) (hpolled : g'.link.poll.1 ≠ .error) :
    (processTagGroup connect g').hasError = false ∧
      (processTagGroup connect g').link = g'.link.poll.2 := by
  have hlink : g'.link = impl.client.getD {} := by rw [TagGroup.link, h.rtdeImpl, Option.getD_some]
  unfold processTagGroup processRtdeTagGroup
  simp only [h.hasError, h.sessionStarted, h.rtdeImpl, Bool.false_eq_true, if_false, if_true,
    Bool.not_true, ← hlink]
  rcases hpoll : g'.link.poll with ⟨_ | _ | ⟨recipeId, payload⟩, c⟩
  · rw [hpoll] at hpolled
    exact absurd rfl hpolled
  · exact ⟨rfl, rfl⟩
  · simp only
    split
    · exact ⟨rfl, rfl⟩
    · exact ⟨rfl, rfl⟩

/-- The packages of two streams, one after the other. -/
theorem packages_append (frames frames' : List (UInt8 × List UInt8)) :
    packages (frames ++ frames') = packages frames ++ packages frames' := List.filterMap_append

/-- A poll takes the frames that have arrived, and holds the last package of them all. -/
theorem Handshake.Holds.process (h : hs.Holds seen later g' impl)
    (hfits : ∀ f ∈ later, FrameFits f)
    (hpackages : ∀ package ∈ packages later,
      package.1 = hs.impl.outputRecipeId ∧ package.2.length = hs.outputRecipe.size) :
    ∃ taken rest impl', later = taken ++ rest ∧
      hs.Holds (seen ++ taken) rest (processTagGroup connect g') impl' ∧
      frameCodec.Trailing rest (processTagGroup connect g').link.recvBuf := by
  obtain ⟨rest, hlater, hfeeds, htrailing, hanswer⟩ := poll_feeds hfits h.feeds
  generalize g'.link.pollFrames = taken at *
  have hnotError : g'.link.poll.1 ≠ .error := by
    rw [hanswer, pollAnswer]
    split
    · intro hno
      cases hno
    · intro hno
      cases hno
  obtain ⟨hok, hlink⟩ := h.serving.link_process hnotError
  rw [← hlink] at hfeeds htrailing
  rcases h.serving.process with herror | ⟨impl', hserving, -, -, hkept⟩
  · rw [hok] at herror
    cases herror
  have hpolled : polled g' = g'.link.poll := rfl
  have hlast : impl'.haveOutputData = ((packages taken).getLast?.or (packages seen).getLast?).isSome ∧
      ∀ package, (packages taken).getLast?.or (packages seen).getLast? = some package →
        impl'.outputPayload = package.2 := by
    cases htaken : (packages taken).getLast? with
    | none =>
      have hnothing : g'.link.poll.1 = .nothing := by
        rw [hanswer, pollAnswer, show taken.filterMap packageOf = packages taken from rfl, htaken]
        rfl
      rcases hkept with ⟨⟨⟨c, hframe⟩, -⟩, -⟩ | ⟨-, hpayload, hhave⟩
      · rw [hpolled] at hframe
        rw [hframe] at hnothing
        cases hnothing
      · rw [Option.none_or, hpayload, hhave]
        exact ⟨h.have_eq, h.payload⟩
    | some package =>
      obtain ⟨recipeId, body⟩ := package
      have hframe : g'.link.poll.1 = .frame recipeId body := by
        rw [hanswer, pollAnswer, show taken.filterMap packageOf = packages taken from rfl, htaken]
        rfl
      obtain ⟨hid, hsize⟩ := hpackages (recipeId, body) (by
        rw [hlater, packages_append]
        exact List.mem_append_left _ (List.mem_of_getLast? htaken))
      simp only at hid hsize
      subst hid
      rcases hkept with ⟨⟨⟨c, hframe'⟩, -⟩, hhave⟩ | ⟨hnone, -, -⟩
      · rw [hpolled] at hframe'
        rw [hframe'] at hframe
        obtain ⟨-, rfl⟩ := Extracted.frame.inj hframe
        exact ⟨hhave, fun package hpackage => (Option.some.inj hpackage) ▸ rfl⟩
      · exact absurd ⟨⟨g'.link.poll.2, Prod.ext hframe rfl⟩, hsize⟩ (hnone body)
  refine ⟨taken, rest, impl', hlater, ⟨hserving, hfeeds, ?_, ?_⟩, htrailing⟩
  · rw [packages_append, List.getLast?_append]
    exact hlast.1
  · rw [packages_append, List.getLast?_append]
    exact hlast.2

/-! ## Over a run -/

/-- So many of the frames are taken, and the group holds the last package among them. -/
def Handshake.Follows (hs : Handshake connect g) (frames : List (UInt8 × List UInt8))
    (g' : TagGroup) : Prop :=
  ∃ seen later impl, frames = seen ++ later ∧ hs.Holds seen later g' impl

/-- A call between polls takes no frame. -/
theorem Handshake.Holds.keep (h : hs.Holds seen later g' impl) {g'' : TagGroup}
    {impl' : RtdeTagGroupImpl} (hserving : hs.Serving g'' impl') (hfeeds : Feeds later g''.link)
    (hpayload : impl'.outputPayload = impl.outputPayload)
    (hhave : impl'.haveOutputData = impl.haveOutputData) : hs.Holds seen later g'' impl' :=
  ⟨hserving, hfeeds, hhave.trans h.have_eq,
    fun package hlast => hpayload.trans (h.payload package hlast)⟩

/-- What is still to come fits, and is of the output recipe. -/
theorem Handshake.Streams.ahead {frames : List (UInt8 × List UInt8)} {samples : List Values}
    (h : hs.Streams frames samples) (hsplit : frames = seen ++ later) :
    (∀ f ∈ later, FrameFits f) ∧ ∀ package ∈ Rtde.packages later,
      package.1 = hs.impl.outputRecipeId ∧ package.2.length = hs.outputRecipe.size := by
  subst hsplit
  refine ⟨fun f hf => h.fits f (List.mem_append_right _ hf), fun package hpackage => ?_⟩
  have hmem : package ∈ Rtde.packages (seen ++ later) := by
    rw [packages_append]
    exact List.mem_append_right _ hpackage
  rw [h.packages] at hmem
  obtain ⟨vals, hvals, rfl⟩ := List.mem_map.mp hmem
  exact ⟨rfl, Recipe.length_encode (h.valid vals hvals)⟩

/-- Every call follows the stream. -/
theorem Handshake.Follows.step {frames : List (UInt8 × List UInt8)} {samples : List Values}
    (hstreams : hs.Streams frames samples) (h : hs.Follows frames g') (call : SessionCall V) :
    hs.Follows frames (callStep connect g' call) := by
  obtain ⟨seen, later, impl, hsplit, hholds⟩ := h
  cases call with
  | write tagName value =>
    obtain ⟨impl', hserving, -, -, hpayload, hhave⟩ := hholds.serving.write (tagName, value)
    refine ⟨seen, later, impl', hsplit, hholds.keep hserving ?_ hpayload hhave⟩
    rcases link_write g' tagName value with hlink | ⟨payload, hlink⟩
    · exact hlink.symm ▸ hholds.feeds
    · exact hlink.symm ▸ hholds.feeds.sendFrame _ _
  | registerTag tagName =>
    obtain ⟨impl', hserving, hpayload, hhave⟩ := hholds.serving.registerTag tagName
    refine ⟨seen, later, impl', hsplit, hholds.keep hserving ?_ hpayload hhave⟩
    exact (link_registerTag g' tagName).symm ▸ hholds.feeds
  | process =>
    obtain ⟨hfits, hpackages⟩ := hstreams.ahead hsplit
    obtain ⟨taken, rest, impl', rfl, hholds', -⟩ := hholds.process hfits hpackages
    exact ⟨seen ++ taken, rest, impl', by rw [hsplit, List.append_assoc], hholds'⟩

/-- The session follows the stream from its start. -/
theorem Handshake.follows (hfresh : g.Fresh) {frames : List (UInt8 × List UInt8)}
    (hfeeds : Feeds frames hs.group.link) : hs.Follows frames hs.group :=
  ⟨[], frames, hs.impl, rfl, hs.serving hfresh, hfeeds, rfl, (fun _ hnone => nomatch hnone)⟩

/-! ## Reading -/

/-- What a tag of the output recipe is read as, the last sample being the one that is given. -/
def readSample (sample : Option Values) (ft : FieldType) (base : CStr) (idx : Nat)
    (brackets : Bool) : B :=
  match sample with
  | none => ReadAs.ofDouble 0
  | some vals => (vals.at ft base idx brackets).cast

/-- The packages taken carry the first of the samples. -/
theorem Handshake.Streams.taken {frames : List (UInt8 × List UInt8)} {samples : List Values}
    (h : hs.Streams frames samples) (hsplit : frames = seen ++ later) :
    Rtde.packages seen = (samples.take (Rtde.packages seen).length).map fun vals =>
      (hs.impl.outputRecipeId, hs.outputRecipe.encode vals) := by
  have hall := h.packages
  rw [hsplit, packages_append] at hall
  rw [List.map_take, ← hall, List.take_left' rfl]

/-- An initialised output is read off the last sample. -/
theorem Handshake.Holds.read (h : hs.Holds seen later g' impl)
    {frames : List (UInt8 × List UInt8)} {samples : List Values} (hstreams : hs.Streams frames samples)
    (hsplit : frames = seen ++ later) {name : CStr} {e : RtdeTagEntry}
    (htag : impl.tags[name]? = some e) (hinit : e.initialized = true) (hinput : e.isInput = false) :
    ∃ ft, hs.outputRecipe.lookup e.baseName = some ft ∧ (rtdeRead g' name : B) =
      readSample (samples.take (packages seen).length).getLast? ft e.baseName e.elementIndex.toNat
        e.hasBrackets := by
  have htaken := congrArg List.getLast? (hstreams.taken hsplit)
  rw [List.getLast?_map] at htaken
  have hread : (rtdeRead g' name : B) =
      if impl.haveOutputData then e.read impl.outputPayload else ReadAs.ofDouble 0 := by
    rw [rtdeRead, h.serving.rtdeImpl]
    simp only [htag, h.serving.hasError, hinit, hinput, Bool.not_true, Bool.or_self,
      Bool.false_eq_true, if_false]
  rw [hread, h.have_eq]
  cases hlast : (samples.take (packages seen).length).getLast? with
  | none =>
    rw [hlast] at htaken
    obtain ⟨off, ft, hplaced⟩ := (h.serving.tags name e htag hinit).placed
    rw [Handshake.table, hinput] at hplaced
    refine ⟨ft, lookup_zip hplaced.lookup, ?_⟩
    rw [htaken]
    rfl
  | some vals =>
    rw [hlast] at htaken
    have hvals : vals ∈ samples := List.mem_of_mem_take (List.mem_of_getLast? hlast)
    obtain ⟨ft, hlookup, hcast⟩ := (h.serving.tags name e htag hinit).scalar_encode (B := B) hinput
      (hstreams.valid vals hvals)
    refine ⟨ft, hlookup, ?_⟩
    rw [h.payload _ htaken, htaken]
    exact hcast

/-- In every session that starts, for every stream of samples, however it is cut, and every sequence
of polls, writes and registrations: the session does not fail, every output tag reads the last sample
that has been taken off the stream, and after a poll no whole frame is left to be taken. -/
theorem reads_latest_sample (pollingInterval : Int) (gateway : CStr) (names : List CStr)
    {g' : TagGroup} (hinit : initRtdeSession connect (registered pollingInterval gateway names) =
      (true, g')) :
    ∃ hs : Handshake connect (registered pollingInterval gateway names), g' = hs.group ∧
      ∀ (frames : List (UInt8 × List UInt8)) (samples : List Values), hs.Streams frames samples →
        Feeds frames g'.link → ∀ calls : List (SessionCall V),
        let state := run (callStep connect) g' calls
        state.hasError = false ∧ ∃ seen later, frames = seen ++ later ∧ Feeds later state.link ∧
          (calls.getLast? = some .process → frameCodec.Trailing later state.link.recvBuf) ∧
          ∀ name base idx brackets e, parseTagIndex name = some (base, idx, brackets) →
            rtdeIsInputName base = false → (state.rtdeImpl.getD {}).tags[name]? = some e →
            e.initialized = true →
            ∃ ft, hs.outputRecipe.lookup base = some ft ∧ (rtdeRead state name : B) =
              readSample (samples.take (packages seen).length).getLast? ft base idx.toNat
                brackets := by
  have hfresh := registered_fresh pollingInterval gateway names
  obtain ⟨hs, rfl⟩ := initRtdeSession_eq_true hinit
  refine ⟨hs, rfl, fun frames samples hstreams hfeeds calls => ?_⟩
  intro state
  have hfollows : hs.Follows frames hs.group := hs.follows hfresh hfeeds
  have hreads : ∀ {seen later : List (UInt8 × List UInt8)} {impl : RtdeTagGroupImpl},
      frames = seen ++ later → hs.Holds seen later state impl →
      ∀ name base idx brackets e, parseTagIndex name = some (base, idx, brackets) →
        rtdeIsInputName base = false → (state.rtdeImpl.getD {}).tags[name]? = some e →
        e.initialized = true →
        ∃ ft, hs.outputRecipe.lookup base = some ft ∧ (rtdeRead state name : B) =
          readSample (samples.take (packages seen).length).getLast? ft base idx.toNat brackets := by
    intro seen later impl hsplit hholds name base idx brackets e hparse hinput htag hinit'
    rw [hholds.serving.rtdeImpl, Option.getD_some] at htag
    have he := hholds.serving.tags name e htag hinit'
    have hname := he.fromName.parse
    rw [hparse, Option.some.injEq, Prod.mk.injEq, Prod.mk.injEq] at hname
    obtain ⟨rfl, rfl, rfl⟩ := hname
    exact hholds.read hstreams hsplit htag hinit' (he.fromName.isInput.trans hinput)
  rcases List.eq_nil_or_concat' calls with rfl | ⟨pre, call, rfl⟩
  · obtain ⟨seen, later, impl, hsplit, hholds⟩ := hfollows
    exact ⟨hholds.serving.hasError, seen, later, hsplit, hholds.feeds, (fun hno => nomatch hno),
      hreads hsplit hholds⟩
  have hpre : hs.Follows frames (run (callStep connect) hs.group pre) :=
    run_of_invariant (callStep connect) (fun _ call h => h.step hstreams call) hfollows pre
  have hrun : state = callStep connect (run (callStep connect) hs.group pre) call :=
    run_concat (callStep connect) _ _ _
  have hstep := hpre.step hstreams call
  rw [← hrun] at hstep
  cases call with
  | write tagName value =>
    obtain ⟨seen, later, impl, hsplit, hholds⟩ := hstep
    refine ⟨hholds.serving.hasError, seen, later, hsplit, hholds.feeds, fun hlast => ?_,
      hreads hsplit hholds⟩
    rw [List.getLast?_concat] at hlast
    cases hlast
  | registerTag tagName =>
    obtain ⟨seen, later, impl, hsplit, hholds⟩ := hstep
    refine ⟨hholds.serving.hasError, seen, later, hsplit, hholds.feeds, fun hlast => ?_,
      hreads hsplit hholds⟩
    rw [List.getLast?_concat] at hlast
    cases hlast
  | process =>
    obtain ⟨seen, later, impl, hsplit, hholds⟩ := hpre
    obtain ⟨hfits, hpackages⟩ := hstreams.ahead hsplit
    obtain ⟨taken, rest, impl', rfl, hholds', htrailing⟩ := hholds.process hfits hpackages
    have hsplit' : frames = (seen ++ taken) ++ rest := by rw [hsplit, List.append_assoc]
    rw [show processTagGroup connect (run (callStep connect) hs.group pre) = state from hrun.symm]
      at hholds' htrailing
    exact ⟨hholds'.serving.hasError, seen ++ taken, rest, hsplit', hholds'.feeds,
      fun _ => htrailing, hreads hsplit' hholds'⟩

/-- A controller with one word of output bits, that sends two packages, the second in two pieces. -/
def cutSocket : Socket where
  sends := List.replicate 3 (.accepted 100)
  recvs := [.bytes [0, 4, 86, 1], .bytes ([0, 10, 79, 1] ++ toBytes "UINT64".toList),
    .bytes [0, 4, 83, 1], .bytes [0, 12, 85, 1, 0, 0, 0, 0, 0, 0, 0, 0, 0, 12, 85],
    .failed eWouldBlock, .bytes [1, 0, 0, 0, 0, 0, 0, 0, 8]]

/-- What it sends once the handshake is over. -/
def cutFrames : List (UInt8 × List UInt8) :=
  [(85, [1, 0, 0, 0, 0, 0, 0, 0, 0]), (85, [1, 0, 0, 0, 0, 0, 0, 0, 8])]

/-- The second poll brings the second package. -/
theorem second_package_read :
    let connect := fun _ => .ok cutSocket
    let start := initRtdeSession connect (registered 0 [] ["output_bits[3]".toList])
    (rtdeRead (run (callStep connect) start.2 ([.process, .process] : List (SessionCall Bool)))
      "output_bits[3]".toList : Bool) = true := by
  intro connect start
  obtain ⟨hs, hgroup, hall⟩ := reads_latest_sample (V := Bool) (B := Bool) 0 []
    ["output_bits[3]".toList] (show _ = (true, start.2) from
      Prod.ext (show start.1 = true by decide) rfl)
  have htypes : hs.outputs.types = [.uint64] := by
    rw [hs.outputs_eq rfl]
    decide
  have hrecipe : hs.outputRecipe = [("output_bits".toList, .uint64)] := by
    rw [Handshake.outputRecipe, htypes]
    decide
  have hid : hs.impl.outputRecipeId = 1 := by
    have hsome : hs.impl = (start.2.rtdeImpl.getD {}) := by
      rw [hgroup]
      rfl
    rw [hsome]
    decide
  have hstreams : hs.Streams cutFrames [fun _ _ => .int 0, fun _ _ => .int 8] := by
    refine ⟨?_, ?_, ?_⟩
    · intro f hf
      rcases List.mem_cons.mp hf with rfl | hf
      · show _ ≤ _
        decide
      · rw [List.mem_singleton.mp hf]
        show _ ≤ _
        decide
    · rw [hrecipe]
      intro vals hvals p hp i _
      obtain rfl := List.mem_singleton.mp hp
      rcases List.mem_cons.mp hvals with rfl | hvals
      · exact ⟨by decide, by decide⟩
      · rw [List.mem_singleton.mp hvals]
        exact ⟨by decide, by decide⟩
    · rw [hrecipe, hid]
      decide
  have hlink : start.2.link.socket.map (fun s => (s.modeSwitch, s.recvs)) =
      some (true, cutSocket.recvs.drop 3) := by decide
  obtain ⟨s, hsocket, hanswers⟩ := Option.map_eq_some_iff.mp hlink
  obtain ⟨hmode, hrecvs⟩ := Prod.mk.inj hanswers
  have hfeeds : Feeds cutFrames start.2.link := by
    refine ⟨s, hsocket, hmode, ?_, ?_⟩
    · rw [hrecvs]
      intro a ha
      simp only [cutSocket, List.drop_succ_cons, List.drop_zero, List.mem_cons, List.not_mem_nil,
        or_false] at ha
      rcases ha with rfl | rfl | rfl
      · exact .inr ⟨_, _, rfl⟩
      · exact .inl rfl
      · exact .inr ⟨_, _, rfl⟩
    · rw [hrecvs, show start.2.link.recvBuf = [] by decide]
      decide
  obtain ⟨-, seen, later, hsplit, ⟨s', hsocket', -, -, hbytes⟩, -, hread⟩ :=
    hall cutFrames _ hstreams hfeeds [.process, .process]
  -- both packages are taken
  have hend : (run (callStep connect) start.2
      ([.process, .process] : List (SessionCall Bool))).link.socket.map
        (fun s => recvBytes s.recvs) = some [] := by decide
  have hlater : later = [] := by
    rw [hsocket', Option.map_some, Option.some.injEq] at hend
    rw [hend, show (run (callStep connect) start.2
      ([.process, .process] : List (SessionCall Bool))).link.recvBuf = [] by decide] at hbytes
    have hlen := length_le_encodeAll later
    rw [← hbytes] at hlen
    exact List.length_eq_zero_iff.mp (Nat.le_zero.mp hlen)
  rw [hlater, List.append_nil] at hsplit
  obtain ⟨ft, hlookup, htag⟩ := hread "output_bits[3]".toList "output_bits".toList 3 true
    { initialized := true, baseName := "output_bits".toList, elementIndex := 3, hasBrackets := true,
      isBitIndexed := true, baseType := .uint64, scalarType := .bool }
    (by decide) (by decide) (by decide) rfl
  rw [hrecipe] at hlookup
  obtain rfl := Option.some.inj hlookup
  rw [htag, ← hsplit]
  decide

end OipComms.Rtde
