import OipComms.Rtde.Session

/-!
# What a recipe setup accepts

The controller answers a setup with one type for each name, or with `NOT_FOUND` or `IN_USE` in the
place of a type. `setup_outputs` and `setup_inputs` collect the names that were refused into three
texts, and refuse the recipe when one of the texts is not empty: a refused name that is itself empty
leaves no trace. `setup_rejects_unusable` says that there is no other way past them.
-/

namespace OipComms.Rtde

/-- The reply a setup judges, `none` where the request or the reply does not get through. -/
def Client.reply (mt : UInt8) (request : List UInt8) (c : Client) : Option (UInt8 × List UInt8) :=
  match c.sendFrame mt request with
  | (false, _) => none
  | (true, c) => c.recvFrame.1

/-- A reply that grants a recipe: of the right type, with one type a package can carry for each
name. -/
def Grants (mt : UInt8) (names : List CStr) (reply : Option (UInt8 × List UInt8))
    (types : List FieldType) : Prop :=
  ∃ recipeId body, reply = some (mt, recipeId :: body) ∧
    types = (splitCsv (ofBytes body)).map parseFieldType ∧ types.length = names.length ∧
    ∀ ft ∈ types, ft.Concrete

/-- A setup says yes to the replies that grant its recipe and to no others, and hands out their
types. -/
def Judges (mt : UInt8) (names : List CStr) (reply : Option (UInt8 × List UInt8))
    (answer : SetupReply) : Prop :=
  (answer.ok = true → Grants mt names reply answer.types) ∧
    ((∃ types, Grants mt names reply types) → answer.ok = true)

/-- The only name that is refused is the empty one, with `NOT_FOUND` or `IN_USE`. -/
def RefusesUnnamed (names : List CStr) (types : List FieldType) : Prop :=
  (∃ p ∈ names.zip types, ¬ p.2.Concrete) ∧
    ∀ p ∈ names.zip types, ¬ p.2.Concrete → p.1 = [] ∧ (p.2 = .notFound ∨ p.2 = .inUse)

/-- No reply of the right type and length refuses the empty name and nothing else. -/
def Telling (mt : UInt8) (names : List CStr) (reply : Option (UInt8 × List UInt8)) : Prop :=
  ∀ recipeId body, reply = some (mt, recipeId :: body) →
    (splitCsv (ofBytes body)).length = names.length →
    ¬ RefusesUnnamed names ((splitCsv (ofBytes body)).map parseFieldType)

/-! ## The three lists of names -/

theorem bucketOf_eq_nil_iff {ft : FieldType} {entry : CStr → CStr → CStr}
    {replies : List (CStr × CStr)} : bucketOf ft entry replies = [] ↔
      ∀ p ∈ replies, parseFieldType p.2 = ft → entry p.1 p.2 = [] := by
  refine ⟨bucketOf_eq_nil, fun h => ?_⟩
  rw [bucketOf]
  induction replies with
  | nil => rfl
  | cons p replies ih =>
    have hrest := ih fun q hq => h q (List.mem_cons_of_mem _ hq)
    rw [List.foldl_cons]
    by_cases hft : parseFieldType p.2 = ft
    · rw [if_pos hft, if_pos rfl, h p List.mem_cons_self hft]
      exact hrest
    · rw [if_neg hft]
      exact hrest

/-- A name and its type leave a trace in one of the three lists. -/
def Shows (name : CStr) (ft : FieldType) : Prop :=
  (ft = .notFound ∨ ft = .inUse) ∧ name ≠ [] ∨ ft = .unknown

/-- The three lists are empty exactly when no name leaves a trace. -/
theorem buckets_eq_nil_iff (replies : List (CStr × CStr)) :
    (bucketOf .notFound (fun name _ => name) replies = [] ∧
      bucketOf .inUse (fun name _ => name) replies = [] ∧
      bucketOf .unknown (fun name type => name ++ " (got '".toList ++ type ++ "')".toList)
        replies = []) ↔
      ∀ p ∈ replies, ¬ Shows p.1 (parseFieldType p.2) := by
  simp only [bucketOf_eq_nil_iff]
  constructor
  · rintro ⟨hnotFound, hinUse, hunknown⟩ p hp (⟨hft | hft, hname⟩ | hft)
    · exact hname (hnotFound p hp hft)
    · exact hname (hinUse p hp hft)
    · exact absurd (List.append_eq_nil_iff.mp (hunknown p hp hft)).2 (by decide)
  · intro h
    refine ⟨fun p hp hft => ?_, fun p hp hft => ?_, fun p hp hft => ?_⟩
    · by_contra hname
      exact h p hp (.inl ⟨.inl hft, hname⟩)
    · by_contra hname
      exact h p hp (.inl ⟨.inr hft, hname⟩)
    · exact absurd (.inr hft) (h p hp)

/-! ## The setup -/

instance (name : CStr) (ft : FieldType) : Decidable (Shows name ft) :=
  inferInstanceAs (Decidable (_ ∧ _ ∨ _))

/-- What a setup answers to a reply. -/
def answerTo (mt : UInt8) (names : List CStr) : Option (UInt8 × List UInt8) → SetupReply
  | some (type, recipeId :: body) =>
    if type ≠ mt then { ok := false }
    else if (splitCsv (ofBytes body)).length ≠ names.length then
      { ok := false, recipeId := some recipeId }
    else
      { ok := decide (∀ p ∈ names.zip (splitCsv (ofBytes body)), ¬ Shows p.1 (parseFieldType p.2))
        recipeId := some recipeId
        types := (splitCsv (ofBytes body)).map parseFieldType }
  | _ => { ok := false }

theorem setup_answer (texts : SetupTexts) (mt : UInt8) (request : List UInt8) (names : List CStr)
    (c : Client) : (c.setup texts mt request names).1 = answerTo mt names (c.reply mt request) := by
  unfold Client.setup Client.reply
  rcases c.sendFrame mt request with ⟨_ | _, c⟩
  · rfl
  simp only
  rcases c.recvFrame with ⟨_ | ⟨type, _ | ⟨recipeId, body⟩⟩, c⟩
  · rfl
  · rfl
  simp only [answerTo]
  by_cases htype : type = mt
  case neg => rw [if_pos htype, if_pos htype]
  by_cases hlen : (splitCsv (ofBytes body)).length = names.length
  case neg => rw [if_neg (not_not.mpr htype), if_neg (not_not.mpr htype), if_pos hlen, if_pos hlen]
  have hbuckets := buckets_eq_nil_iff (names.zip (splitCsv (ofBytes body)))
  simp only [htype, hlen, ne_eq, not_true, if_false]
  by_cases hnotFound : bucketOf .notFound (fun name _ => name)
      (names.zip (splitCsv (ofBytes body))) = []
  case neg =>
    have hshows : ¬ ∀ p ∈ names.zip (splitCsv (ofBytes body)), ¬ Shows p.1 (parseFieldType p.2) :=
      fun h => hnotFound (hbuckets.mpr h).1
    simp only [hnotFound, hshows, not_false_eq_true, if_true, decide_false]
  by_cases hinUse : bucketOf .inUse (fun name _ => name)
      (names.zip (splitCsv (ofBytes body))) = []
  case neg =>
    have hshows : ¬ ∀ p ∈ names.zip (splitCsv (ofBytes body)), ¬ Shows p.1 (parseFieldType p.2) :=
      fun h => hinUse (hbuckets.mpr h).2.1
    simp only [hnotFound, hinUse, hshows, not_true, not_false_eq_true, if_true, if_false,
      decide_false]
  by_cases hunknown : bucketOf .unknown
      (fun name type => name ++ " (got '".toList ++ type ++ "')".toList)
      (names.zip (splitCsv (ofBytes body))) = []
  · have hshows := hbuckets.mp ⟨hnotFound, hinUse, hunknown⟩
    simp only [hnotFound, hinUse, hunknown, not_true, if_false]
    rw [decide_eq_true hshows]
  · have hshows : ¬ ∀ p ∈ names.zip (splitCsv (ofBytes body)), ¬ Shows p.1 (parseFieldType p.2) :=
      fun h => hunknown (hbuckets.mpr h).2.2
    simp only [hnotFound, hinUse, hunknown, hshows, not_true, not_false_eq_true, if_true, if_false,
      decide_false]

/-- A type that is no type a package can carry is refused with a trace, or belongs to the empty
name. -/
theorem shows_or_unnamed {name : CStr} {ft : FieldType} (h : ¬ ft.Concrete) :
    Shows name ft ∨ name = [] ∧ (ft = .notFound ∨ ft = .inUse) := by
  rw [FieldType.Concrete, not_and_or, not_and_or, not_not, not_not, not_not] at h
  by_cases hname : name = []
  · rcases h with hft | hft
    · exact .inl (.inr hft)
    · exact .inr ⟨hname, hft⟩
  · rcases h with hft | hft
    · exact .inl (.inr hft)
    · exact .inl (.inl ⟨hft, hname⟩)

theorem Shows.not_concrete {name : CStr} {ft : FieldType} (h : Shows name ft) : ¬ ft.Concrete := by
  rintro ⟨hunknown, hnotFound, hinUse⟩
  rcases h with ⟨hft | hft, -⟩ | hft
  · exact hnotFound hft
  · exact hinUse hft
  · exact hunknown hft

/-- A setup judges its reply rightly exactly when the reply does not refuse the empty name alone. -/
theorem judges_iff (mt : UInt8) (names : List CStr) (reply : Option (UInt8 × List UInt8)) :
    Judges mt names reply (answerTo mt names reply) ↔ Telling mt names reply := by
  constructor
  · rintro ⟨haccepts, -⟩ recipeId body rfl hlen ⟨⟨p, hp, hrefused⟩, honly⟩
    have hsilent : ∀ p ∈ names.zip (splitCsv (ofBytes body)),
        ¬ Shows p.1 (parseFieldType p.2) := by
      intro q hq hshows
      have hq' : (q.1, parseFieldType q.2) ∈
          names.zip ((splitCsv (ofBytes body)).map parseFieldType) := by
        rw [List.zip_map_right]
        exact List.mem_map.mpr ⟨q, hq, rfl⟩
      obtain ⟨hname, hft⟩ := honly _ hq' hshows.not_concrete
      rcases hshows with ⟨-, hne⟩ | hunknown
      · exact hne hname
      · simp only [hunknown, reduceCtorEq, or_self] at hft
    have hok : (answerTo mt names (some (mt, recipeId :: body))).ok = true := by
      simp only [answerTo, ne_eq, not_true, if_false, hlen]
      exact decide_eq_true hsilent
    obtain ⟨_, _, hreply, htypes, -, hconcrete⟩ := haccepts hok
    cases hreply
    rw [htypes] at hconcrete
    exact hrefused (hconcrete p.2 (List.of_mem_zip hp).2)
  · intro htelling
    constructor
    · intro hok
      rcases reply with _ | ⟨type, _ | ⟨recipeId, body⟩⟩
      · cases hok
      · cases hok
      simp only [answerTo] at hok ⊢
      by_cases htype : type = mt
      case neg =>
        rw [if_pos htype] at hok
        cases hok
      by_cases hlen : (splitCsv (ofBytes body)).length = names.length
      case neg =>
        rw [if_neg (not_not.mpr htype), if_pos hlen] at hok
        cases hok
      subst htype
      simp only [hlen, ne_eq, not_true, if_false, decide_eq_true_eq] at hok ⊢
      have hsame : ((splitCsv (ofBytes body)).map parseFieldType).length = names.length := by
        rw [List.length_map, hlen]
      refine ⟨recipeId, body, rfl, rfl, hsame, fun ft hft => ?_⟩
      by_contra hrefused
      -- the name of the refused type leaves no trace, and neither does any other that is refused
      rw [← List.map_snd_zip (Nat.le_of_eq hsame)] at hft
      obtain ⟨p, hp, rfl⟩ := List.mem_map.mp hft
      refine htelling recipeId body rfl hlen ⟨⟨p, hp, hrefused⟩, fun q hq hqrefused => ?_⟩
      rw [List.zip_map_right] at hq
      obtain ⟨r, hr, rfl⟩ := List.mem_map.mp hq
      exact (shows_or_unnamed hqrefused).resolve_left (hok r hr)
    · rintro ⟨types, recipeId, body, rfl, rfl, hlen, hconcrete⟩
      rw [List.length_map] at hlen
      simp only [answerTo, ne_eq, not_true, if_false, hlen, decide_eq_true_eq]
      intro p hp hshows
      exact hshows.not_concrete (hconcrete _ (List.mem_map_of_mem (List.of_mem_zip hp).2))

/-! ## The names of a recipe -/

/-- The names of a recipe are base names of its tags. -/
theorem mem_recipeNames {isInput : Bool} {tags : List (CStr × RtdeTagEntry)} {name : CStr}
    (h : name ∈ recipeNames isInput tags) :
    ∃ x ∈ tags, x.2.isInput = isInput ∧ x.2.baseName = name := by
  have hfold : ∀ (tags : List (CStr × RtdeTagEntry)) (bucket : List CStr),
      name ∈ tags.foldl (fun bucket x =>
        if x.2.isInput = isInput then
          if x.2.baseName ∈ bucket then bucket else bucket ++ [x.2.baseName]
        else bucket) bucket →
      name ∈ bucket ∨ ∃ x ∈ tags, x.2.isInput = isInput ∧ x.2.baseName = name := by
    intro tags
    induction tags with
    | nil => exact fun bucket h => .inl h
    | cons x tags ih =>
      intro bucket h
      rcases ih _ h with hbucket | ⟨y, hy, hname⟩
      · beta_reduce at hbucket
        by_cases hinput : x.2.isInput = isInput
        · rw [if_pos hinput] at hbucket
          by_cases hdup : x.2.baseName ∈ bucket
          · rw [if_pos hdup] at hbucket
            exact .inl hbucket
          · rw [if_neg hdup] at hbucket
            rcases List.mem_append.mp hbucket with hbucket | hnew
            · exact .inl hbucket
            · exact .inr ⟨x, List.mem_cons_self, hinput, (List.mem_singleton.mp hnew).symm⟩
        · rw [if_neg hinput] at hbucket
          exact .inl hbucket
      · exact .inr ⟨y, List.mem_cons_of_mem _ hy, hname⟩
  exact (hfold tags [] h).resolve_left List.not_mem_nil

/-- No name of an input recipe is empty: it starts with `input_`. -/
theorem TagGroup.Fresh.inputNames_ne {g : TagGroup} (hfresh : g.Fresh) {name : CStr}
    (h : name ∈ inputNames g) : name ≠ [] := by
  rintro rfl
  obtain ⟨⟨n, e⟩, hmem, hinput, hname⟩ := mem_recipeNames h
  rw [sessionTags, resetTags, Std.ExtTreeMap.mem_toList_iff_getElem?_eq_some,
    Std.ExtTreeMap.getElem?_map] at hmem
  obtain ⟨e', he', rfl⟩ := Option.map_eq_some_iff.mp hmem
  have hstarts := (hfresh.tags n e' he').1.isInput
  rw [show e'.isInput = true from hinput, show e'.baseName = [] from hname] at hstarts
  cases hstarts

/-- A recipe all of whose names are there refuses none without a trace. -/
theorem telling_of_named (mt : UInt8) {names : List CStr} (hnames : ∀ name ∈ names, name ≠ [])
    (reply : Option (UInt8 × List UInt8)) : Telling mt names reply := by
  rintro recipeId body - - ⟨⟨p, hp, hrefused⟩, honly⟩
  exact hnames p.1 (List.of_mem_zip hp).1 (honly p hp hrefused).1

/-! ## Every group -/

/-- The reply that `setup_outputs` judges. -/
def Client.outputsReply (frequency : UInt64) (names : List CStr) (c : Client) :
    Option (UInt8 × List UInt8) :=
  c.reply mtControlPackageSetupOutputs (hostToBe64 frequency ++ toBytes (joinCsv names))

/-- The reply that `setup_inputs` judges. -/
def Client.inputsReply (names : List CStr) (c : Client) : Option (UInt8 × List UInt8) :=
  c.reply mtControlPackageSetupInputs (toBytes (joinCsv names))

/-- For the names of every group and every reply, the two setups accept the replies that grant their
recipe and no others exactly when the reply to the output recipe does not refuse the empty name
alone. -/
theorem setup_rejects_unusable (pollingInterval : Int) (gateway : CStr) (tagNames : List CStr)
    (frequency : UInt64) (c c' : Client) :
    (Judges mtControlPackageSetupOutputs (outputNames (registered pollingInterval gateway tagNames))
        (c.outputsReply frequency (outputNames (registered pollingInterval gateway tagNames)))
        (c.setupOutputs frequency (outputNames (registered pollingInterval gateway tagNames))).1 ∧
      Judges mtControlPackageSetupInputs (inputNames (registered pollingInterval gateway tagNames))
        (c'.inputsReply (inputNames (registered pollingInterval gateway tagNames)))
        (c'.setupInputs (inputNames (registered pollingInterval gateway tagNames))).1) ↔
      Telling mtControlPackageSetupOutputs
        (outputNames (registered pollingInterval gateway tagNames))
        (c.outputsReply frequency (outputNames (registered pollingInterval gateway tagNames))) := by
  have hfresh := registered_fresh pollingInterval gateway tagNames
  have hinputs := telling_of_named mtControlPackageSetupInputs
    (fun _ h => hfresh.inputNames_ne h)
    (c'.inputsReply (inputNames (registered pollingInterval gateway tagNames)))
  rw [Client.setupOutputs, Client.setupInputs, setup_answer, setup_answer]
  constructor
  · exact fun h => (judges_iff _ _ _).mp h.1
  · exact fun h => ⟨(judges_iff _ _ _).mpr h, (judges_iff _ _ _).mpr hinputs⟩

/-- A controller that does not find the one variable it is asked for. -/
def unnamedSocket : Socket where
  sends := [.accepted 100]
  recvs := [.bytes ([0, 13, 79, 1] ++ toBytes "NOT_FOUND".toList)]

/-- The tag `[0]` asks for a variable without a name, and the recipe that does not have it is
accepted. -/
theorem unnamed_variable_accepted :
    outputNames (registered 0 [] [['[', '0', ']']]) = [[]] ∧
    (Client.setupOutputs 0x405F400000000000 [[]] (Client.opened unnamedSocket)).1 =
      { ok := true, recipeId := some 1, types := [.notFound] } ∧
    ¬ Judges mtControlPackageSetupOutputs [[]]
      (Client.outputsReply 0x405F400000000000 [[]] (Client.opened unnamedSocket))
      (Client.setupOutputs 0x405F400000000000 [[]] (Client.opened unnamedSocket)).1 := by
  have hnames : outputNames (registered 0 [] [['[', '0', ']']]) = [[]] := by
    rfl
  have hanswer : (Client.setupOutputs 0x405F400000000000 [[]] (Client.opened unnamedSocket)).1 =
      { ok := true, recipeId := some 1, types := [.notFound] } := by
    rfl
  refine ⟨hnames, hanswer, fun hjudges => ?_⟩
  rw [hanswer] at hjudges
  obtain ⟨_, _, -, -, -, hconcrete⟩ := hjudges.1 rfl
  exact (hconcrete .notFound List.mem_cons_self).2.1 rfl

end OipComms.Rtde
