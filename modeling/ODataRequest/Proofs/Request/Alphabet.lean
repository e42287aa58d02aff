import ODataRequest.Proofs.Path.Language
import ODataRequest.Proofs.Request.Rebuild
import ODataRequest.Proofs.Text.Spelling

/-! The characters and the parts of canonical URIs. Main statement: a canonical URI is the service root, the
path, and the options of the request pair by pair, spelled with the characters that a path and a query
can have. -/

namespace ODataRequest

open Text Percent

/-! ### Paths -/

theorem ResourcePath.spelled_render (path : ResourcePath) (style : KeyStyle) :
    Spelled isPathChar (path.render style) := by
  have hsegment : ∀ found, Spelled isPathChar (renderSegment style found).2 := by
    intro found
    obtain ⟨text, htext⟩ := renderSegment_escape style found
    rw [htext]
    exact path_within.spelled text
  rw [ResourcePath.render]
  split
  · exact .nil
  · refine (hsegment _).append (.flatMap fun found _ => ?_)
    rw [renderLater]
    dsimp only
    split
    · exact hsegment found
    · have hslash : Spelled isPathChar ['/'] := .bare (by decide) (by decide)
      exact hslash.append (hsegment found)

/-! ### Queries -/

theorem RequestOption.spelled_encoded (option : RequestOption) : Spelled isQueryChar option.encoded := by
  have hmark : ∀ {mark : Char}, isQueryChar mark = true → Spelled isQueryChar [mark] := by
    intro mark h
    exact .bare (by decide) (by rw [List.all_cons, h]; rfl)
  have hname : Spelled isQueryChar option.rawName := by
    cases option with
    | system option =>
        have hnames : ∀ option : SystemOption, option.name.all isQueryChar = true := by
          intro option
          cases option <;> decide
        exact .bare (by decide) (hnames option.name)
    | custom name value =>
        rw [rawName, encodedName.eq_def]
        split
        · exact (hmark (by decide)).append (queryValue_within.spelled _)
        · exact queryValue_within.spelled _
  rcases option.encoded_cases with hencoded | ⟨-, hencoded⟩
  · rw [hencoded]
    exact hname.append ((hmark (by decide)).append (queryValue_within.spelled _))
  · rwa [hencoded]

namespace CanonicalUri

variable {options : List RequestOption}

theorem spelled_renderQuery (options : List RequestOption) :
    Spelled isQueryChar (renderQuery options) := by
  have hmark : Spelled isQueryChar ['&'] := .bare (by decide) (by decide)
  cases options with
  | nil => exact .nil
  | cons option options =>
      rw [renderQuery_cons]
      exact option.spelled_encoded.append (.flatMap fun other _ => hmark.append other.spelled_encoded)

theorem fields_renderQuery (h : options ≠ []) :
    fields '&' (renderQuery options) = options.map RequestOption.encoded := by
  refine fields_intercalate (by rwa [ne_eq, List.map_eq_nil_iff]) fun part hpart => ?_
  obtain ⟨option, -, rfl⟩ := List.mem_map.mp hpart
  exact not_mem_encoded option (by decide)

theorem renderQuery_eq_nil_iff (h : QueryOptionName.Accepted [] (options.map (·.pair.name))) :
    renderQuery options = [] ↔ options = [] := by
  constructor
  · intro hnil
    cases options with
    | nil => rfl
    | cons option options =>
        rw [renderQuery_cons] at hnil
        exact absurd (List.append_eq_nil_iff.mp hnil).1 (encoded_ne_nil h.1)
  · rintro rfl
    rfl

/-- The first question mark stands before the query, so that the query is what follows it. -/
theorem query?_make (root : ServiceRoot) (path : ResourcePath) (options : List RequestOption)
    (style : KeyStyle) : (make root path options style).query? =
      if renderQuery options = [] then none else some (renderQuery options) := by
  have hmark : '?' ∉ path.render style :=
    ResourcePath.not_mem_render (by decide) (by decide) path style
  rw [query?, make, renderRelative]
  by_cases hempty : renderQuery options = []
  · rw [if_pos hempty, hempty]
    dsimp only
    rw [List.isEmpty_nil, if_pos rfl, List.append_nil, cutAt?_eq_none_iff.mpr hmark]
    rfl
  · rw [if_neg hempty, if_neg (by rwa [List.isEmpty_iff])]
    dsimp only
    rw [cutAt?_append hmark]
    rfl

end CanonicalUri

/-- **The layout and the alphabet of canonical URIs.** What is built is the service root, a slash and
the relative text; the relative text is the path and, exactly if there are options, a question mark
and the query. The path holds only the characters of path segments and slashes, the query only
unreserved characters and four marks, and both hold only complete escapes in upper case. Between its
ampersands the query has the encoded options, one for each pair of the request in their order. -/
theorem buildWith_layout [Url.Parser] {model : Option NavigationModel} {raw : Text} {style : KeyStyle}
    {settings : Settings} {lookups : List Lookup} {uri : CanonicalUri}
    (h : buildWith model raw style settings = (lookups, .ok uri)) :
    ServiceRoot.parse settings.serviceRoot = .ok uri.root ∧
      uri.render = uri.root.text ++ '/' :: uri.relative ∧
      uri.relative = uri.path.render style ++ (uri.query?.map ('?' :: ·)).getD [] ∧
      (uri.query? = none ↔ uri.options = []) ∧
      Spelled isPathChar (uri.path.render style) ∧
      (∀ query, uri.query? = some query →
        Spelled isQueryChar query ∧ fields '&' query = uri.options.map RequestOption.encoded) ∧
      ∃ request, RawRequest.parse (ParsedRequest.relativePart uri.root raw) = .ok request ∧
        ResourcePath.parse request.path style = .ok uri.path ∧
        List.Forall₂ (fun pair option =>
          ParsedRequest.readOption settings.maxNestingDepth pair = .ok option)
          request.query uri.options := by
  obtain ⟨request, hparse, rfl, -⟩ := ParsedRequest.exists_of_buildWith h
  obtain ⟨hroot, cut, hcut, hpath, hoptions⟩ := ParsedRequest.parts_of_parse hparse
  have hempty := CanonicalUri.renderQuery_eq_nil_iff (ParsedRequest.accepted_of_parse hparse)
  have hquery : (request.canonical style).query? = _ :=
    CanonicalUri.query?_make request.root request.path request.options style
  refine ⟨hroot, rfl, ?_, ?_, request.path.spelled_render style, ?_, cut, hcut, hpath,
    ParsedRequest.forall₂_of_readOptions hoptions⟩
  · rw [hquery]
    show CanonicalUri.renderRelative request.path request.options style = _
    rw [CanonicalUri.renderRelative]
    by_cases hnil : CanonicalUri.renderQuery request.options = []
    · rw [if_pos hnil, if_pos (by rw [hnil]; rfl)]
      rfl
    · rw [if_neg hnil, if_neg (by rwa [List.isEmpty_iff])]
      rfl
  · rw [hquery]
    refine Iff.trans ?_ hempty
    split
    · rename_i hnil
      exact iff_of_true rfl hnil
    · rename_i hnil
      exact iff_of_false (Option.some_ne_none _) hnil
  · intro query hsome
    rw [hquery] at hsome
    split at hsome
    · cases hsome
    · rename_i hnil
      cases hsome
      exact ⟨CanonicalUri.spelled_renderQuery request.options,
        CanonicalUri.fields_renderQuery fun hoptions => hnil (hempty.mpr hoptions)⟩

/-- Marks and letters beyond ASCII in a key, in a value and in a name, and an empty pair. -/
theorem buildWith_layout_marks :
    ∃ uri, buildWith none "/People('a%3Fb%2Fé')?$filter=Name eq 'x%26y'&@p=1&&ü".toList .slash
        ⟨"http://host/odata/".toList, 1, 80⟩ = ([], .ok uri) ∧
      uri.relative = uri.path.render .slash ++ (uri.query?.map ('?' :: ·)).getD [] ∧
      uri.path.render .slash = "People/'a%3Fb%2F%C3%A9'".toList ∧
      uri.query? = some "$filter=Name%20eq%20%27x%26y%27&@p=1&%C3%BC".toList ∧
      fields '&' "$filter=Name%20eq%20%27x%26y%27&@p=1&%C3%BC".toList =
        uri.options.map RequestOption.encoded := by
  have hbuild : buildWith none "/People('a%3Fb%2Fé')?$filter=Name eq 'x%26y'&@p=1&&ü".toList .slash
      ⟨"http://host/odata/".toList, 1, 80⟩ = ([], .ok ⟨⟨"http://host/odata".toList⟩,
        ⟨[.entitySet "People".toList, .key (.single (.string "a?b/é".toList))]⟩,
        [.system (.mk .filter (.filter (.binary .eq (.access ⟨none, ["Name".toList]⟩)
          (.literal (.string "x&y".toList))))), .custom "@p".toList "1".toList, .custom "ü".toList []],
        "People/'a%3Fb%2F%C3%A9'?$filter=Name%20eq%20%27x%26y%27&@p=1&%C3%BC".toList⟩) := by
    decide +kernel
  obtain ⟨-, -, hrelative, -, -, hquery, -⟩ := buildWith_layout hbuild
  exact ⟨_, hbuild, hrelative, by decide +kernel, by decide +kernel,
    (hquery _ (by decide +kernel)).2⟩

end ODataRequest
