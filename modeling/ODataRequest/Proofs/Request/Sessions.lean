import ODataRequest.Proofs.Query.Readers
import ODataRequest.Request.Builder

/-! Sessions with a builder. The key style and the model are changed any number of times, before the
settings are given and between the builds after that. What a build gives is compared with the plain
build of its text in the style that was set last. Main statement: it is that, unless the plain build
succeeds and the model attached last rejects its path and options; no earlier build, style or model
matters, and a model is asked nothing about a text whose plain build fails. -/

namespace ODataRequest

/-! ### Faults of form -/

theorem eq_error_of_mapError {ε ε' α : Type} {result : Except ε α} {f : ε → ε'} {e : ε'}
    (h : result.mapError f = .error e) : ∃ cause, e = f cause := by
  cases result with
  | error cause =>
      cases h
      exact ⟨cause, rfl⟩
  | ok value => cases h

namespace ParsedRequest

theorem ofQueryError_ne_semantic (e : QueryError) (cause : SemanticError) :
    BuildFault.ofQueryError e ≠ .semantic cause := by
  cases e <;> exact nofun

theorem readOptions_ne_semantic {maxDepth : Nat} {pairs : List QueryPair} {fault : BuildFault}
    (h : readOptions maxDepth pairs = .error fault) (cause : SemanticError) :
    fault ≠ .semantic cause := by
  induction pairs with
  | nil => cases h
  | cons pair pairs ih =>
      rcases bind_eq_error h with hfirst | ⟨option, -, h⟩
      · rw [readOption] at hfirst
        split at hfirst
        · split at hfirst
          · cases hfirst
          · cases hfirst
            exact ofQueryError_ne_semantic _ cause
        · cases hfirst
      · rcases bind_eq_error h with hothers | ⟨others, -, h⟩
        · exact ih hothers
        · cases h

/-- The form of a request never depends on a model. -/
theorem parse_ne_semantic [Url.Parser] {raw : Text} {style : KeyStyle} {settings : Settings} {fault : BuildFault}
    (h : ParsedRequest.parse raw style settings = .error fault) (cause : SemanticError) :
    fault ≠ .semantic cause := by
  rw [ParsedRequest.parse] at h
  split at h
  · cases h
    exact nofun
  rcases bind_eq_error h with hroot | ⟨root, -, h⟩
  · obtain ⟨_, rfl⟩ := eq_error_of_mapError hroot
    exact nofun
  rcases bind_eq_error h with hcut | ⟨cut, -, h⟩
  · obtain ⟨_, rfl⟩ := eq_error_of_mapError hcut
    exact nofun
  rcases bind_eq_error h with hpath | ⟨path, -, h⟩
  · obtain ⟨_, rfl⟩ := eq_error_of_mapError hpath
    exact nofun
  rcases bind_eq_error h with hoptions | ⟨options, -, h⟩
  · exact readOptions_ne_semantic hoptions cause
  · cases h

end ParsedRequest

/-! ### One build -/

/-- The questions that a model is asked about the path and the options of a URI, and its verdict. -/
def CanonicalUri.check (uri : CanonicalUri) (model : NavigationModel) :
    List Lookup × Except SemanticError Unit :=
  (Check.request model uri.path uri.systemOptions).outcome

/-- What a build may give where the plain build gives something, with a model that may be attached. -/
structure Judged (model : Option NavigationModel) (raw : Text)
    (plain : Except BuildError CanonicalUri) (lookups : List Lookup)
    (result : Except BuildError CanonicalUri) : Prop where
  unattached : model = none → lookups = [] ∧ result = plain
  /-- About what is not well-formed nothing is asked, and the error stays. -/
  malformed : ∀ e, plain = .error e → lookups = [] ∧ result = .error e
  /-- A URI stays unless the model rejects it, and the model is asked what its check asks. -/
  checked : ∀ uri attached, plain = .ok uri → model = some attached →
    lookups = (uri.check attached).1 ∧
      ((uri.check attached).2 = .ok () → result = .ok uri) ∧
      ∀ cause, (uri.check attached).2 = .error cause → result = .error ⟨raw, .semantic cause⟩
  semantic : ∀ input cause, result = .error ⟨input, .semantic cause⟩ →
    ∃ uri attached, plain = .ok uri ∧ model = some attached ∧ input = raw ∧
      (uri.check attached).2 = .error cause

section

variable [Url.Parser] {raw : Text} {style : KeyStyle} {settings : Settings} {e : BuildError} {uri : CanonicalUri}

theorem build_ne_semantic {input : Text} {cause : SemanticError} :
    build raw style settings ≠ .error ⟨input, .semantic cause⟩ := by
  rw [build]
  split
  · rename_i fault hparse
    intro heq
    cases heq
    exact ParsedRequest.parse_ne_semantic hparse cause rfl
  · exact nofun

theorem buildWith_none (raw : Text) (style : KeyStyle) (settings : Settings) :
    buildWith none raw style settings = ([], build raw style settings) := by
  rw [buildWith, build]
  split <;> rfl

theorem buildWith_of_error (h : build raw style settings = .error e) (model : Option NavigationModel) :
    buildWith model raw style settings = ([], .error e) := by
  rw [build] at h
  rw [buildWith]
  split at h
  · cases h
    rfl
  · cases h

theorem buildWith_of_ok (h : build raw style settings = .ok uri) (model : NavigationModel) :
    buildWith (some model) raw style settings = ((uri.check model).1,
      ((uri.check model).2.mapError (⟨raw, .semantic ·⟩)).map fun _ => uri) := by
  rw [build] at h
  rw [buildWith]
  split at h
  · cases h
  · rename_i request hparse
    cases h
    have hcheck : (request.canonical style).check model = request.check model := rfl
    rw [hcheck]
    dsimp only
    split <;> rename_i hverdict <;> rw [hverdict] <;> rfl

theorem buildWith_judged (model : Option NavigationModel) (raw : Text) (style : KeyStyle)
    (settings : Settings) : Judged model raw (build raw style settings)
      (buildWith model raw style settings).1 (buildWith model raw style settings).2 := by
  cases hplain : build raw style settings with
  | error e =>
      rw [buildWith_of_error hplain]
      refine ⟨fun _ => ⟨rfl, rfl⟩, fun e he => ⟨rfl, he⟩, nofun, fun input cause hsemantic => ?_⟩
      exact absurd (hplain.trans hsemantic) build_ne_semantic
  | ok uri =>
      cases model with
      | none =>
          rw [buildWith_none, hplain]
          exact ⟨fun _ => ⟨rfl, rfl⟩, nofun, nofun, nofun⟩
      | some model =>
          rw [buildWith_of_ok hplain]
          refine ⟨nofun, nofun, fun uri attached hok hmodel => ?_, fun input cause hsemantic => ?_⟩
          · cases hok
            cases hmodel
            refine ⟨rfl, fun hverdict => ?_, fun cause hverdict => ?_⟩ <;> rw [hverdict] <;> rfl
          · refine ⟨uri, model, rfl, rfl, ?_⟩
            cases hverdict : (uri.check model).2 with
            | ok _ =>
                rw [hverdict] at hsemantic
                cases hsemantic
            | error found =>
                rw [hverdict] at hsemantic
                cases hsemantic
                exact ⟨rfl, rfl⟩

end

namespace Builder

/-! ### Sessions -/

/-- A change of a builder. -/
inductive Change where
  | style (style : KeyStyle)
  | model (model : NavigationModel)

/-- A step of a session with a builder that has settings. -/
inductive Step where
  | change (change : Change)
  | build (raw : Text)

variable {State : Type}

def change (builder : Builder State) : Change → Builder State
  | .style style => builder.withStyle style
  | .model model => builder.withModel model

def run [Url.Parser] (builder : Builder Settings) :
    List Step → List (List Lookup × Except BuildError CanonicalUri)
  | [] => []
  | .change change :: steps => run (builder.change change) steps
  | .build raw :: steps => builder.build raw :: run builder steps

/-- What the builds of a session give: a new builder is changed, given settings, and used. -/
def session [Url.Parser] (before : List Change) (settings : Settings) (steps : List Step) :
    List (List Lookup × Except BuildError CanonicalUri) :=
  run ((before.foldl change empty).configure settings) steps

/-! ### Histories -/

def Change.style? : Change → Option KeyStyle
  | .style found => some found
  | .model _ => none

def Change.model? : Change → Option NavigationModel
  | .style _ => none
  | .model found => some found

/-- The style that was set last; keys are written in parentheses before any is set. -/
def lastStyle (changes : List Change) : KeyStyle :=
  (changes.reverse.findSome? Change.style?).getD .parentheses

/-- The model that was attached last. -/
def lastModel? (changes : List Change) : Option NavigationModel :=
  changes.reverse.findSome? Change.model?

def Step.change? : Step → Option Change
  | .change found => some found
  | .build _ => none

def Step.isBuild : Step → Bool
  | .change _ => false
  | .build _ => true

/-- A builder as changes have left it. -/
structure Reflects (changes : List Change) (builder : Builder State) : Prop where
  style : builder.style = lastStyle changes
  model : builder.model = lastModel? changes

variable {builder : Builder State} {changes : List Change}

/-- One more change of a builder. -/
theorem Reflects.change (h : Reflects changes builder) (change : Change) :
    Reflects (changes ++ [change]) (builder.change change) := by
  obtain ⟨hstyle, hmodel⟩ := h
  cases change with
  | style style =>
      refine ⟨?_, ?_⟩
      · rw [lastStyle, List.reverse_concat, List.findSome?_cons]
        rfl
      · rw [lastModel?, List.reverse_concat, List.findSome?_cons]
        exact hmodel
  | model model =>
      refine ⟨?_, ?_⟩
      · rw [lastStyle, List.reverse_concat, List.findSome?_cons]
        exact hstyle
      · rw [lastModel?, List.reverse_concat, List.findSome?_cons]
        rfl

/-- Any number of changes of a builder. -/
theorem Reflects.foldl (h : Reflects changes builder) (more : List Change) :
    Reflects (changes ++ more) (more.foldl Builder.change builder) := by
  induction more generalizing changes builder with
  | nil => rwa [List.append_nil]
  | cons change more ih =>
      rw [List.append_cons]
      exact ih (h.change change)

theorem state_foldl (builder : Builder State) (changes : List Change) :
    (changes.foldl change builder).state = builder.state := by
  induction changes generalizing builder with
  | nil => rfl
  | cons first changes ih =>
      rw [List.foldl_cons, ih]
      cases first <;> rfl

/-- A build is that of its text in the style set last, judged by the model attached last. -/
theorem Reflects.judged [Url.Parser] {builder : Builder Settings} (h : Reflects changes builder) (raw : Text) :
    Judged (lastModel? changes) raw (ODataRequest.build raw (lastStyle changes) builder.state)
      (builder.build raw).1 (builder.build raw).2 := by
  rw [← h.style, ← h.model]
  exact buildWith_judged builder.model raw builder.style builder.state

/-! ### Runs -/

theorem length_run [Url.Parser] (builder : Builder Settings) (steps : List Step) :
    (run builder steps).length = steps.countP Step.isBuild := by
  induction steps generalizing builder with
  | nil => rfl
  | cons step steps ih =>
      cases step with
      | change change => exact ih _
      | build raw => rw [run, List.length_cons, ih, List.countP_cons_of_pos rfl]

/-- A build of a run is one by the builder as the changes before it have left it. -/
theorem getElem?_run [Url.Parser] (builder : Builder Settings) (earlier : List Step) (raw : Text)
    (later : List Step) :
    (run builder (earlier ++ .build raw :: later))[earlier.countP Step.isBuild]? =
      some (((earlier.filterMap Step.change?).foldl change builder).build raw) := by
  induction earlier generalizing builder with
  | nil => rfl
  | cons step earlier ih =>
      cases step with
      | change change => exact ih _
      | build other =>
          rw [List.countP_cons_of_pos rfl, List.cons_append, run, List.getElem?_cons_succ]
          exact ih _

/-- **Builds of a session.** Every build of a session, and nothing else, gives an answer, and the answer
is that of the plain build of its text in the style set last, judged by the model attached last; the
builds, styles and models before do not matter. -/
theorem session_build [Url.Parser] (before : List Change) (settings : Settings) (earlier : List Step)
    (raw : Text) (later : List Step) :
    (session before settings (earlier ++ .build raw :: later)).length =
        (earlier ++ .build raw :: later).countP Step.isBuild ∧
      ∃ lookups result,
        (session before settings (earlier ++ .build raw :: later))[earlier.countP Step.isBuild]? =
          some (lookups, result) ∧
        Judged (lastModel? (before ++ earlier.filterMap Step.change?)) raw
          (ODataRequest.build raw (lastStyle (before ++ earlier.filterMap Step.change?)) settings)
          lookups result := by
  have hempty : Reflects [] empty := ⟨rfl, rfl⟩
  have hbefore := hempty.foldl before
  have hconfigured : Reflects ([] ++ before) ((before.foldl change empty).configure settings) :=
    ⟨hbefore.style, hbefore.model⟩
  have hreflects := hconfigured.foldl (earlier.filterMap Step.change?)
  refine ⟨length_run _ _, _, _, getElem?_run _ earlier raw later, ?_⟩
  have hjudged := hreflects.judged raw
  rw [state_foldl] at hjudged
  exact hjudged

/-- The style is changed between two builds, then a model is attached that knows nothing: it rejects what was
built before, and is not asked about a malformed text. -/
theorem session_build_rejected : ∃ answers slash parentheses,
    answers = session [.style .slash] ⟨"http://host/".toList, 1, 80⟩ [.build "Items('a')".toList,
      .change (.style .parentheses), .build "Items('a')".toList, .change (.model fun _ _ => none),
      .build "Items('a')".toList, .build "Items?$top=x".toList] ∧
    answers[0]? = some ([], .ok slash) ∧ slash.render = "http://host/Items/'a'".toList ∧
    answers[1]? = some ([], .ok parentheses) ∧ parentheses.render = "http://host/Items('a')".toList ∧
    answers[2]? = some ([⟨none, "Items".toList, none⟩],
      .error ⟨"Items('a')".toList, .semantic (.unknownProperty "Items".toList none)⟩) ∧
    answers[3]? = some ([], .error ⟨"Items?$top=x".toList, .literal ⟨"x".toList, .nonNegative⟩⟩) := by
  have hslash : ODataRequest.build "Items('a')".toList .slash ⟨"http://host/".toList, 1, 80⟩ =
      .ok (.make ⟨"http://host".toList⟩
        ⟨[.entitySet "Items".toList, .key (.single (.string "a".toList))]⟩ [] .slash) := by
    decide +kernel
  have hparentheses : ODataRequest.build "Items('a')".toList .parentheses ⟨"http://host/".toList, 1, 80⟩ =
      .ok (.make ⟨"http://host".toList⟩
        ⟨[.entitySet "Items".toList, .key (.single (.string "a".toList))]⟩ [] .parentheses) := by
    decide +kernel
  have hmalformed : ODataRequest.build "Items?$top=x".toList .parentheses ⟨"http://host/".toList, 1, 80⟩ =
      .error ⟨"Items?$top=x".toList, .literal ⟨"x".toList, .nonNegative⟩⟩ := by
    decide +kernel
  have hcheck : (CanonicalUri.make ⟨"http://host".toList⟩
      ⟨[.entitySet "Items".toList, .key (.single (.string "a".toList))]⟩ [] .parentheses).check
        (fun _ _ => none) =
      ([⟨none, "Items".toList, none⟩], .error (.unknownProperty "Items".toList none)) := by
    decide +kernel
  have hsession := session_build [.style .slash] ⟨"http://host/".toList, 1, 80⟩
  obtain ⟨-, _, _, hfirst, hjudgedFirst⟩ := hsession [] "Items('a')".toList
    [.change (.style .parentheses), .build "Items('a')".toList,
      .change (.model fun _ _ => none), .build "Items('a')".toList, .build "Items?$top=x".toList]
  obtain ⟨-, _, _, hsecond, hjudgedSecond⟩ := hsession
    [.build "Items('a')".toList, .change (.style .parentheses)] "Items('a')".toList
    [.change (.model fun _ _ => none), .build "Items('a')".toList, .build "Items?$top=x".toList]
  obtain ⟨-, _, _, hthird, hjudgedThird⟩ := hsession
    [.build "Items('a')".toList, .change (.style .parentheses), .build "Items('a')".toList,
      .change (.model fun _ _ => none)] "Items('a')".toList [.build "Items?$top=x".toList]
  obtain ⟨-, _, _, hfourth, hjudgedFourth⟩ := hsession
    [.build "Items('a')".toList, .change (.style .parentheses), .build "Items('a')".toList,
      .change (.model fun _ _ => none), .build "Items('a')".toList] "Items?$top=x".toList []
  obtain ⟨hasked, hresult⟩ := hjudgedFirst.unattached rfl
  rw [hasked, hresult.trans hslash] at hfirst
  obtain ⟨hasked, hresult⟩ := hjudgedSecond.unattached rfl
  rw [hasked, hresult.trans hparentheses] at hsecond
  obtain ⟨hasked, -, hrejected⟩ := hjudgedThird.checked _ _ hparentheses rfl
  rw [hcheck] at hasked hrejected
  rw [hasked, hrejected _ rfl] at hthird
  obtain ⟨hasked, hresult⟩ := hjudgedFourth.malformed _ hmalformed
  rw [hasked, hresult] at hfourth
  exact ⟨_, _, _, rfl, hfirst, by decide +kernel, hsecond, by decide +kernel, hthird, hfourth⟩

end Builder

end ODataRequest
