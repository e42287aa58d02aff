import ODataRequest.Proofs.Path.Unique
import ODataRequest.Proofs.Query.DepthLimit
import ODataRequest.Proofs.Request.Rebuild

/-! The order of canonical URIs against their equality. The order only sees the whole text. Under one
service root the text determines the path and the pairs of the query, whatever styles and settings the
URIs were built with, and it determines the options up to the literals under a minus sign. Main
statement: of two URIs under one root the order says that they are equal exactly if path and pairs
are, which without such literals means that the URIs are the same. -/

namespace ODataRequest

open Text PathSegment

namespace ParsedRequest

variable {maxDepth maxDepth' : Nat} {style : KeyStyle} {settings : Settings} {raw : Text}

theorem readOption_agrees {pair : QueryPair} {option option' : RequestOption}
    (h : readOption maxDepth pair = .ok option) (h' : readOption maxDepth' pair = .ok option') :
    option = option' := by
  rw [readOption] at h h'
  cases hname : pair.name with
  | custom name =>
      rw [hname] at h h'
      exact Except.ok.inj (h.symm.trans h')
  | system name =>
      rw [hname] at h h'
      dsimp only at h h'
      split at h
      · rename_i value hvalue
        split at h'
        · rename_i value' hvalue'
          rw [OptionValue.parse_agrees hvalue hvalue'] at h
          exact Except.ok.inj (h.symm.trans h')
        · cases h'
      · cases h

/-- Two limits that accept the pairs of a query accept them as the same options. -/
theorem readOptions_agrees {pairs : List QueryPair} {options options' : List RequestOption}
    (h : readOptions maxDepth pairs = .ok options) (h' : readOptions maxDepth' pairs = .ok options') :
    options = options' := by
  induction pairs generalizing options options' with
  | nil => exact Except.ok.inj (h.symm.trans h')
  | cons pair pairs ih =>
      obtain ⟨first, hfirst, h⟩ := bind_eq_ok.mp h
      obtain ⟨others, hothers, h⟩ := bind_eq_ok.mp h
      obtain ⟨first', hfirst', h'⟩ := bind_eq_ok.mp h'
      obtain ⟨others', hothers', h'⟩ := bind_eq_ok.mp h'
      cases h
      cases h'
      rw [readOption_agrees hfirst hfirst', ih hothers hothers']

/-- The relative text of a request is cut into the text of its path and the pairs of its options. -/
theorem parse_relative [Url.Parser] {request : ParsedRequest}
    (h : ParsedRequest.parse raw style settings = .ok request) :
    RawRequest.parse (request.canonical style).relative =
      .ok ⟨request.path.render style, request.options.map RequestOption.pair⟩ :=
  CanonicalUri.parse_renderRelative request.path style (accepted_of_parse h)

theorem chain_path [Url.Parser] {request : ParsedRequest}
    (h : ParsedRequest.parse raw style settings = .ok request) : Chain none request.path.segments := by
  obtain ⟨-, cut, -, hpath, -⟩ := parts_of_parse h
  exact ResourcePath.chain_of_parse hpath

/-- The options of a request are those that its pairs are read as. -/
theorem readOptions_canonical [Url.Parser] {request : ParsedRequest}
    (h : ParsedRequest.parse raw style settings = .ok request)
    (hnegated : ∀ option ∈ request.options.filterMap RequestOption.system?,
      option.value.negatedLiterals = []) :
    readOptions settings.maxNestingDepth (request.options.map RequestOption.pair) =
      .ok request.options := by
  obtain ⟨-, cut, -, -, hoptions⟩ := parts_of_parse h
  exact readOptions_pair hoptions hnegated

end ParsedRequest

namespace CanonicalUri

/-- The order sees the whole text and nothing else. -/
theorem order_eq_eq_iff {left right : CanonicalUri} :
    left.order right = .eq ↔ left.render = right.render := by
  rw [order, Std.LawfulEqCmp.compare_eq_iff_eq]
  exact List.map_inj_right fun _ _ => Char.toNat_inj.mp

theorem relative_eq_of_render {left right : CanonicalUri} (hroot : left.root = right.root)
    (h : left.render = right.render) : left.relative = right.relative := by
  rw [render, render, hroot] at h
  exact (List.cons.inj (List.append_cancel_left h)).2

section Built

variable {model model' : Option NavigationModel} {raw raw' : Text} {style style' : KeyStyle}
  {settings settings' : Settings} {lookups lookups' : List Lookup} {left right : CanonicalUri}

/-- **The order of URIs under one service root.** Whatever they were built from and with, two of them
that the order takes for equal have the same path, and options with the same names and texts. If no
sign in an option of theirs stands before a literal, the order takes them for equal exactly if they are
the same URI. -/
theorem order_eq_iff [Url.Parser]
    (hleft : buildWith model raw style settings = (lookups, .ok left))
    (hright : buildWith model' raw' style' settings' = (lookups', .ok right))
    (hroot : left.root = right.root) :
    (left.order right = .eq → left.path = right.path ∧
      left.options.map RequestOption.pair = right.options.map RequestOption.pair) ∧
    ((∀ option ∈ left.systemOptions ++ right.systemOptions, option.value.negatedLiterals = []) →
      (left.order right = .eq ↔ left = right)) := by
  obtain ⟨request, hparse, rfl, -⟩ := ParsedRequest.exists_of_buildWith hleft
  obtain ⟨request', hparse', rfl, -⟩ := ParsedRequest.exists_of_buildWith hright
  have hparts : (request.canonical style).order (request'.canonical style') = .eq →
      request.path = request'.path ∧
        request.options.map RequestOption.pair = request'.options.map RequestOption.pair := by
    intro horder
    have hcut := ParsedRequest.parse_relative hparse
    rw [relative_eq_of_render hroot (order_eq_eq_iff.mp horder),
      ParsedRequest.parse_relative hparse'] at hcut
    obtain ⟨hpath, hpairs⟩ := RawRequest.mk.inj (Except.ok.inj hcut)
    exact ⟨ResourcePath.render_injective (ParsedRequest.chain_path hparse)
      (ParsedRequest.chain_path hparse') hpath.symm, hpairs.symm⟩
  refine ⟨hparts, fun hnegated => ⟨fun horder => ?_, fun hsame => ?_⟩⟩
  · obtain ⟨hpath, hpairs⟩ := hparts horder
    have hread := ParsedRequest.readOptions_canonical hparse fun option hmem =>
      hnegated option (List.mem_append_left _ hmem)
    have hread' := ParsedRequest.readOptions_canonical hparse' fun option hmem =>
      hnegated option (List.mem_append_right _ hmem)
    rw [hpairs] at hread
    have hoptions := ParsedRequest.readOptions_agrees hread hread'
    have hrelative := relative_eq_of_render hroot (order_eq_eq_iff.mp horder)
    exact CanonicalUri.mk.injEq .. ▸ ⟨hroot, hpath, hoptions, hrelative⟩
  · rw [hsame]
    exact order_eq_eq_iff.mpr rfl

end Built

/-- A sign before parentheses and the sign of a number are written alike but are not the same; a key
in parentheses and a key as a segment of its own are. -/
theorem order_eq_iff_sign :
    (∃ left right,
      buildWith none "Items?$filter=Price eq -(5)".toList .parentheses ⟨"http://host/".toList, 2, 80⟩ =
        ([], .ok left) ∧
      buildWith none "Items?$filter=Price eq -5".toList .slash ⟨"http://host/".toList, 1, 90⟩ =
        ([], .ok right) ∧
      left.root = right.root ∧ left.order right = .eq ∧ left.path = right.path ∧ left ≠ right) ∧
    ∃ left right,
      buildWith none "Items(01)?$top=5".toList .slash ⟨"http://host/".toList, 0, 80⟩ =
        ([], .ok left) ∧
      buildWith none "/Items/1?&$top=005".toList .slash ⟨"http://host".toList, 2, 90⟩ =
        ([], .ok right) ∧
      left.root = right.root ∧ left.order right = .eq ∧ left = right := by
  have hsign : buildWith none "Items?$filter=Price eq -(5)".toList .parentheses
      ⟨"http://host/".toList, 2, 80⟩ = ([], .ok (.make ⟨"http://host".toList⟩
        ⟨[.entitySet "Items".toList]⟩ [.system (.mk .filter (.filter (.binary .eq
          (.access ⟨none, ["Price".toList]⟩) (.unary .negate (.literal (.integer 5))))))]
        .parentheses)) := by
    decide +kernel
  have hnumber : buildWith none "Items?$filter=Price eq -5".toList .slash
      ⟨"http://host/".toList, 1, 90⟩ = ([], .ok (.make ⟨"http://host".toList⟩
        ⟨[.entitySet "Items".toList]⟩ [.system (.mk .filter (.filter (.binary .eq
          (.access ⟨none, ["Price".toList]⟩) (.literal (.integer (-5))))))] .slash)) := by
    decide +kernel
  have hparentheses : buildWith none "Items(01)?$top=5".toList .slash ⟨"http://host/".toList, 0, 80⟩ =
      ([], .ok (.make ⟨"http://host".toList⟩
        ⟨[.entitySet "Items".toList, .key (.single (.integer 1))]⟩
        [.system (.mk .top (.top 5))] .slash)) := by
    decide +kernel
  have hsegment : buildWith none "/Items/1?&$top=005".toList .slash ⟨"http://host".toList, 2, 90⟩ =
      ([], .ok (.make ⟨"http://host".toList⟩
        ⟨[.entitySet "Items".toList, .key (.single (.integer 1))]⟩
        [.system (.mk .top (.top 5))] .slash)) := by
    decide +kernel
  have hequal : (CanonicalUri.make ⟨"http://host".toList⟩ ⟨[.entitySet "Items".toList]⟩
      [.system (.mk .filter (.filter (.binary .eq (.access ⟨none, ["Price".toList]⟩)
        (.unary .negate (.literal (.integer 5))))))] .parentheses).order
      (.make ⟨"http://host".toList⟩ ⟨[.entitySet "Items".toList]⟩ [.system (.mk .filter (.filter
        (.binary .eq (.access ⟨none, ["Price".toList]⟩) (.literal (.integer (-5))))))] .slash) =
      .eq := by
    decide +kernel
  obtain ⟨hpath, -⟩ := (order_eq_iff hsign hnumber rfl).1 hequal
  refine ⟨⟨_, _, hsign, hnumber, rfl, hequal, hpath, by decide +kernel⟩, _, _, hparentheses, hsegment,
    rfl, ?_, rfl⟩
  refine ((order_eq_iff hparentheses hsegment rfl).2 fun option hmem => ?_).mpr rfl
  rcases List.mem_append.mp hmem with hmem | hmem <;> cases List.mem_singleton.mp hmem <;> rfl

/-- Under two roots, different URIs may have one text. -/
example : ∃ left right,
    build "b".toList .parentheses ⟨"http://host/a".toList, 0, 80⟩ = .ok left ∧
    build "a/b".toList .parentheses ⟨"http://host".toList, 0, 80⟩ = .ok right ∧
    left.order right = .eq ∧ left ≠ right :=
  ⟨.make ⟨"http://host/a".toList⟩ ⟨[.entitySet "b".toList]⟩ [] .parentheses,
    .make ⟨"http://host".toList⟩ ⟨[.entitySet "a".toList, .navigation "b".toList]⟩ [] .parentheses,
    by decide +kernel, by decide +kernel, by decide +kernel, by decide +kernel⟩

end CanonicalUri

end ODataRequest
