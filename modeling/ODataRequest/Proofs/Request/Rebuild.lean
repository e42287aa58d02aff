import ODataRequest.Proofs.Path.RoundTrip
import ODataRequest.Proofs.Request.Queries
import ODataRequest.Proofs.Service.Root
import ODataRequest.Proofs.WebUrl.Rereading

/-! Building a canonical URI again. The relative text is no longer than its parts demand and never
begins with the service root, so that taking the root off leaves it as it is; path, pairs and values
are then read as what they were. Main statement: a canonical URI that was built is built again, from
its relative text as from its whole text. -/

namespace ODataRequest

open Text PathSegment

namespace ResourcePath

variable {style : KeyStyle} {segments : List PathSegment}

/-- The first text of a path begins with a name or with a control segment, without a colon. -/
theorem Layout.lead {first : Text} {others : List Text} (h : Layout style none segments (first :: others)) :
    ∃ lead rest, first = lead ++ rest ∧ ':' ∉ lead ∧ (rest = [] ∨ ∃ inner, rest = '(' :: inner) := by
  cases h with
  | control hfollows htext =>
      rename_i control
      refine ⟨first, [], (List.append_nil first).symm, ?_, Or.inl rfl⟩
      cases control <;> cases htext <;> decide
  | name hfollows hname hrest =>
      exact ⟨first, [], (List.append_nil first).symm, not_mem_of_bare (word_of_follows hfollows hname).2,
        Or.inl rfl⟩
  | keyed hfollows hname hkey hjoined hrest =>
      exact ⟨_, _, List.append_assoc _ _ _, not_mem_of_bare (word_of_follows hfollows hname).2,
        Or.inr ⟨_, rfl⟩⟩
  | slashKey hkey hjoined hrest => cases hkey.1

/-- Before its first slash, parenthesis and question mark, the text of a path has no colon; and no slash
begins it. -/
theorem lead_render {path : ResourcePath} (h : Chain none path.segments) (style : KeyStyle) :
    (path.render style).head? ≠ some '/' ∧ ∃ lead rest, path.render style = lead ++ rest ∧ ':' ∉ lead ∧
      ∀ c, rest.head? = some c → c ∈ Url.nameEnds := by
  obtain ⟨segments⟩ := path
  by_cases hempty : segments = []
  · have hnil : ResourcePath.render ⟨[]⟩ style = [] := rfl
    rw [hempty, hnil]
    exact ⟨by decide, [], [], rfl, List.not_mem_nil, fun c hc => by cases hc⟩
  obtain ⟨texts, hlayout⟩ : ∃ texts, Layout style none segments texts := exists_layout h
  obtain ⟨first, others, rfl, hrender⟩ := hlayout.exists_render hempty
  rw [hrender]
  constructor
  · have hslash : '/' ∉ Percent.escape .path first := Percent.not_mem_escape (by decide) first
    exact head?_ne_of_not_mem hslash _
      (Percent.escape_ne_nil (hlayout.text_spec first List.mem_cons_self).1)
  · obtain ⟨lead, rest, rfl, hlead, hrest⟩ := hlayout.lead
    refine ⟨Percent.escape .path lead, Percent.escape .path rest ++ slashed others, ?_,
      Percent.not_mem_escape_of_not_mem (by decide) (by decide) hlead, ?_⟩
    · rw [escape_append, List.append_assoc]
    · intro c hc
      rcases hrest with rfl | ⟨inner, rfl⟩
      · have hnil : Percent.escape .path [] = [] := rfl
        rw [hnil, List.nil_append] at hc
        cases others with
        | nil => cases hc
        | cons other others =>
            cases hc
            decide
      · have hopen : Percent.escape .path ('(' :: inner) = '(' :: Percent.escape .path inner :=
          escape_append ['('] inner
        rw [hopen] at hc
        cases hc
        decide

end ResourcePath

/-! ### The relative part -/

namespace ParsedRequest

variable {style : KeyStyle} {settings : Settings} {raw text : Text} {request : ParsedRequest}

/-- A request that can be built again from its canonical text. -/
structure Rebuildable [Url.Parser] (style : KeyStyle) (settings : Settings) (request : ParsedRequest) : Prop where
  root : ServiceRoot.parse settings.serviceRoot = .ok request.root
  chain : Chain none request.path.segments
  paren : style = .slash →
    ∀ text, PathSegment.key (.single (.string text)) ∈ request.path.segments → '(' ∉ text
  names : QueryOptionName.Accepted [] (request.options.map (·.pair.name))
  options : readOptions settings.maxNestingDepth (request.options.map RequestOption.pair) =
    .ok request.options

theorem relativePart_of_not_under {root : ServiceRoot} {relative : Text}
    (hroot : after? root.text relative = none) (hslash : relative.head? ≠ some '/') :
    relativePart root relative = relative := by
  rw [relativePart, withoutRoot, hroot]
  dsimp only
  split
  · exact absurd rfl hslash
  · rfl

theorem relativePart_under (root : ServiceRoot) (relative : Text) :
    relativePart root (root.text ++ '/' :: relative) = relative := by
  rw [relativePart, withoutRoot, after?_eq_some_iff.mpr rfl]
  rfl

namespace Rebuildable

variable [Url.Parser]

/-- Nothing is taken off a relative text. -/
theorem relativePart_relative (hrule : Url.BeginsWithScheme) (h : Rebuildable style settings request) :
    relativePart request.root (request.canonical style).relative = (request.canonical style).relative := by
  obtain ⟨hhead, lead, rest, hrender, hlead, hrest⟩ := ResourcePath.lead_render h.chain style
  obtain ⟨query, hrelative, hquery⟩ : ∃ query,
      (request.canonical style).relative = request.path.render style ++ query ∧
        ∀ c, query.head? = some c → c = '?' := by
    refine ⟨_, rfl, ?_⟩
    intro c hc
    split at hc
    · cases hc
    · exact (Option.some.inj hc).symm
  rw [hrelative]
  refine relativePart_of_not_under ?_ ?_
  · rw [hrender, List.append_assoc]
    refine ServiceRoot.after?_eq_none hrule h.root hlead fun c hc => ?_
    cases rest with
    | nil =>
        rw [hquery c hc]
        decide
    | cons d rest => exact hrest c hc
  · cases hpath : request.path.render style with
    | nil =>
        intro hslash
        exact absurd (hquery '/' hslash) (by decide)
    | cons c rest =>
        rw [hpath] at hhead
        exact hhead

/-! ### Building again -/

/-- A request is parsed from any text, within the limit, that has its relative text as its relative
part. -/
theorem parse (h : Rebuildable style settings request) (hlength : text.utf8Length ≤ settings.maxInputLength)
    (hrelative : relativePart request.root text = (request.canonical style).relative) :
    ParsedRequest.parse text style settings = .ok request := by
  have hquery := CanonicalUri.parse_renderRelative request.path style h.names
  have hpath := ResourcePath.parse_canonical_of_chain h.chain h.paren
  have hcanonical : (request.canonical style).relative =
      CanonicalUri.renderRelative request.path request.options style := rfl
  rw [ParsedRequest.parse, if_neg (Nat.not_lt.mpr hlength), h.root]
  dsimp only [Except.mapError]
  rw [ok_bind, hrelative, hcanonical, hquery]
  dsimp only
  rw [ok_bind, hpath]
  dsimp only
  rw [ok_bind, h.options]
  rfl

end Rebuildable

section Parsed

variable [Url.Parser]

/-- A request is parsed part by part, each by its own rules. -/
theorem parts_of_parse (h : ParsedRequest.parse raw style settings = .ok request) :
    ServiceRoot.parse settings.serviceRoot = .ok request.root ∧
      ∃ cut, RawRequest.parse (relativePart request.root raw) = .ok cut ∧
        ResourcePath.parse cut.path style = .ok request.path ∧
        readOptions settings.maxNestingDepth cut.query = .ok request.options := by
  rw [ParsedRequest.parse] at h
  split at h
  · cases h
  obtain ⟨root, hroot, h⟩ := bind_eq_ok.mp h
  obtain ⟨cut, hcut, h⟩ := bind_eq_ok.mp h
  obtain ⟨path, hpath, h⟩ := bind_eq_ok.mp h
  obtain ⟨options, hoptions, h⟩ := bind_eq_ok.mp h
  cases h
  exact ⟨eq_ok_of_mapError hroot, cut, eq_ok_of_mapError hcut, eq_ok_of_mapError hpath, hoptions⟩

/-- The options of a request have names that a query can have. -/
theorem accepted_of_parse (h : ParsedRequest.parse raw style settings = .ok request) :
    QueryOptionName.Accepted [] (request.options.map (·.pair.name)) := by
  obtain ⟨-, cut, hcut, -, hoptions⟩ := parts_of_parse h
  obtain ⟨pairs, hpairs, hcut⟩ := bind_eq_ok.mp hcut
  cases hcut
  rw [names_of_readOptions hoptions]
  exact QueryOptionName.accepted_of_pairs hpairs

theorem rebuildable_of_parse (h : ParsedRequest.parse raw style settings = .ok request)
    (hnegated : ∀ option ∈ request.options.filterMap RequestOption.system?,
      option.value.negatedLiterals = [])
    (hparen : style = .slash →
      ∀ text, PathSegment.key (.single (.string text)) ∈ request.path.segments → '(' ∉ text) :
    Rebuildable style settings request := by
  obtain ⟨hroot, cut, -, hpath, hoptions⟩ := parts_of_parse h
  exact {
    root := hroot
    chain := ResourcePath.chain_of_parse hpath
    paren := hparen
    names := accepted_of_parse h
    options := readOptions_pair hoptions hnegated }

/-- What a build gives depends on the raw text only through the parsed request. -/
theorem exists_of_buildWith {model : Option NavigationModel} {lookups : List Lookup} {uri : CanonicalUri}
    (h : buildWith model raw style settings = (lookups, .ok uri)) :
    ∃ request, ParsedRequest.parse raw style settings = .ok request ∧ uri = request.canonical style ∧
      ∀ text, ParsedRequest.parse text style settings = .ok request →
        buildWith model text style settings = (lookups, .ok uri) := by
  rw [buildWith] at h
  cases hparse : ParsedRequest.parse raw style settings with
  | error fault =>
      rw [hparse] at h
      cases h
  | ok request =>
      rw [hparse] at h
      refine ⟨request, rfl, ?_, fun text htext => ?_⟩
      · cases model with
        | none =>
            cases h
            rfl
        | some model =>
            dsimp only at h
            split at h
            · cases h
              rfl
            · cases h
      · rw [buildWith, htext]
        cases model with
        | none => exact h
        | some model =>
            dsimp only at h ⊢
            split at h
            · exact h
            · cases h

end Parsed

end ParsedRequest

/-- **Building again.** With or without a model, a canonical URI that was built is built again, with
the same look-ups, from its relative text and from its whole text where these are within the length
limit, if no sign in an option stands before a literal and, in the slash style, no string key holds an
opening parenthesis. -/
theorem buildWith_canonical [Url.Parser] (hrule : Url.BeginsWithScheme) {model : Option NavigationModel}
    {raw : Text} {style : KeyStyle} {settings : Settings} {lookups : List Lookup} {uri : CanonicalUri}
    (h : buildWith model raw style settings = (lookups, .ok uri))
    (hnegated : ∀ option ∈ uri.systemOptions, option.value.negatedLiterals = [])
    (hparen : style = .slash →
      ∀ text, PathSegment.key (.single (.string text)) ∈ uri.path.segments → '(' ∉ text) :
    (uri.relative.utf8Length ≤ settings.maxInputLength →
      buildWith model uri.relative style settings = (lookups, .ok uri)) ∧
    (uri.render.utf8Length ≤ settings.maxInputLength →
      buildWith model uri.render style settings = (lookups, .ok uri)) := by
  obtain ⟨request, hparse, rfl, hagain⟩ := ParsedRequest.exists_of_buildWith h
  have hrebuildable := ParsedRequest.rebuildable_of_parse hparse hnegated hparen
  constructor
  · intro hlength
    exact hagain _ (hrebuildable.parse hlength (hrebuildable.relativePart_relative hrule))
  · intro hlength
    exact hagain _ (hrebuildable.parse hlength (ParsedRequest.relativePart_under _ _))

/-- A key in parentheses becomes a segment of its own, and a custom option stays without a value. -/
theorem buildWith_canonical_slash :
    ∃ uri, buildWith none "/Products('a b')/Name?$filter=(Price)  gt 05&flag".toList .slash
        ⟨"http://host/odata/".toList, 1, 80⟩ = ([], .ok uri) ∧
      uri.render = "http://host/odata/Products/'a%20b'/Name?$filter=Price%20gt%205&flag".toList ∧
      buildWith none uri.relative .slash ⟨"http://host/odata/".toList, 1, 80⟩ = ([], .ok uri) ∧
      buildWith none uri.render .slash ⟨"http://host/odata/".toList, 1, 80⟩ = ([], .ok uri) := by
  have hbuild : buildWith none "/Products('a b')/Name?$filter=(Price)  gt 05&flag".toList .slash
      ⟨"http://host/odata/".toList, 1, 80⟩ = ([], .ok ⟨⟨"http://host/odata".toList⟩,
        ⟨[.entitySet "Products".toList, .key (.single (.string "a b".toList)),
          .navigation "Name".toList]⟩,
        [.system (.mk .filter (.filter (.binary .gt (.access ⟨none, ["Price".toList]⟩)
          (.literal (.integer 5))))), .custom "flag".toList []],
        "Products/'a%20b'/Name?$filter=Price%20gt%205&flag".toList⟩) := by
    decide +kernel
  have hparen : ∀ text, PathSegment.key (.single (.string text)) ∈
      [.entitySet "Products".toList, .key (.single (.string "a b".toList)),
        .navigation "Name".toList] → '(' ∉ text := by
    intro text hmem
    simp only [List.mem_cons, List.not_mem_nil, or_false, reduceCtorEq, false_or, PathSegment.key.injEq,
      KeyPredicate.single.injEq, Literal.string.injEq] at hmem
    rw [hmem]
    decide
  have hnegated : ∀ option ∈ [ParsedOption.mk .filter (.filter (.binary .gt
      (.access ⟨none, ["Price".toList]⟩) (.literal (.integer 5))))], option.value.negatedLiterals = [] := by
    rw [List.forall_mem_singleton]
    rfl
  obtain ⟨hrelative, hwhole⟩ := buildWith_canonical WebUrl.beginsWithScheme hbuild hnegated fun _ => hparen
  exact ⟨_, hbuild, by decide +kernel, hrelative (by decide +kernel), hwhole (by decide +kernel)⟩

end ODataRequest
