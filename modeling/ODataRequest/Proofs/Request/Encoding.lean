import ODataRequest.Proofs.Request.Queries

/-! Encoding options as a query and cutting it into pairs again. A name is fit for a query if it is
read as itself and repeats no system option before it; for a list of options this is a condition on
each system option, on all of them together and on each custom name. Main statement: behind any path,
the encoded options are cut into exactly one pair for each option, in their order, with the names and
the decoded values that they had. -/

namespace ODataRequest

open Text

namespace QueryOptionName

variable {name : Text} {option : SystemOption} {seen : List QueryOptionName}

theorem parse_custom (hnonempty : name ≠ []) (hmark : name.head? ≠ some '$') :
    parse name = .ok (.custom name) := by
  rw [parse, List.isEmpty_eq_false_iff.mpr hnonempty, if_neg Bool.false_ne_true, if_pos hmark]

theorem checkDistinct_fresh (h : .system option ∉ seen) :
    RawRequest.checkDistinct seen (.system option) = .ok () :=
  if_neg h

end QueryOptionName

namespace RequestOption

/-- Options that can stand together in the query of a request: no system option occurs twice or
belongs into expansions only, and no custom name is empty or looks like one of the protocol. -/
structure Queryable (options : List RequestOption) : Prop where
  distinct : ((options.filterMap system?).map ParsedOption.name).Nodup
  topLevel : ∀ option ∈ options.filterMap system?, option.name ≠ .levels
  custom : ∀ name value, .custom name value ∈ options → name ≠ [] ∧ name.head? ≠ some '$'

namespace Queryable

variable {first : RequestOption} {options : List RequestOption}

theorem tail (h : Queryable (first :: options)) : Queryable options where
  distinct := by
    have hdistinct := h.distinct
    cases first with
    | system option => exact (List.nodup_cons.mp hdistinct).2
    | custom name value => exact hdistinct
  topLevel := by
    intro option hmem
    obtain ⟨found, hfound, hsystem⟩ := List.mem_filterMap.mp hmem
    exact h.topLevel option (List.mem_filterMap.mpr ⟨found, List.mem_cons_of_mem _ hfound, hsystem⟩)
  custom := fun name value hmem => h.custom name value (List.mem_cons_of_mem _ hmem)

/-- The name of the first option is read as itself. -/
theorem parse_head (h : Queryable (first :: options)) :
    QueryOptionName.parse first.pair.name.render = .ok first.pair.name := by
  cases first with
  | system option => exact RawRequest.parse_system (h.topLevel option List.mem_cons_self)
  | custom name value =>
      obtain ⟨hnonempty, hmark⟩ := h.custom name value List.mem_cons_self
      exact QueryOptionName.parse_custom hnonempty hmark

/-- A system option at the head is not among the others. -/
theorem head_not_mem {option : ParsedOption} (h : Queryable (.system option :: options)) :
    ∀ other ∈ options, other.pair.name ≠ .system option.name := by
  intro other hmem hname
  cases other with
  | system found =>
      have hfound : found.name = option.name := QueryOptionName.system.inj hname
      refine (List.nodup_cons.mp h.distinct).1 (List.mem_map.mpr ⟨found, ?_, hfound⟩)
      exact List.mem_filterMap.mpr ⟨.system found, hmem, rfl⟩
  | custom name value => cases hname

/-- Names that follow others which they do not repeat are accepted one after the other. -/
theorem accepted (h : Queryable options) {seen : List QueryOptionName}
    (hseen : ∀ option ∈ options, ∀ system, option.pair.name = .system system → .system system ∉ seen) :
    QueryOptionName.Accepted seen (options.map (·.pair.name)) := by
  induction options generalizing seen with
  | nil => exact trivial
  | cons first options ih =>
      refine ⟨h.parse_head, ?_, ih h.tail ?_⟩
      · cases first with
        | system option =>
            exact QueryOptionName.checkDistinct_fresh (hseen _ List.mem_cons_self option.name rfl)
        | custom name value => rfl
      · intro option hmem system hsystem hfound
        rcases List.mem_cons.mp hfound with heq | hfound
        · cases first with
          | system first =>
              rw [heq] at hsystem
              exact h.head_not_mem option hmem hsystem
          | custom name value => cases heq
        · exact hseen option (List.mem_cons_of_mem _ hmem) system hsystem hfound

end Queryable

end RequestOption

namespace RawRequest

open RequestOption

/-- **Cutting an encoded query.** Behind any path, the encoded options with the separator of pairs
between them are cut into one pair for each option, in order, of the option's name and its decoded
value. -/
theorem parse_encoded {path : Text} {options : List RequestOption} (hmark : '?' ∉ path)
    (hfragment : '#' ∉ path) (h : Queryable options) :
    parse (path ++ '?' :: joinTexts '&' (options.map encoded)) = .ok ⟨path, options.map pair⟩ := by
  have haccepted : QueryOptionName.Accepted [] (options.map (·.pair.name)) :=
    h.accepted fun _ _ _ _ => List.not_mem_nil
  have hpairs := CanonicalUri.pairs_renderQuery haccepted (Nat.le_refl _)
  show parse (path ++ '?' :: CanonicalUri.renderQuery options) = _
  rw [parse_query hmark hfragment (CanonicalUri.not_mem_renderQuery options), hpairs]
  rfl

/-- Separators and escapes in names and values, an alias, and a custom option without a value. -/
theorem parse_encoded_separators :
    Queryable [.system (.mk .search (.search "a&b".toList)), .custom "@p=".toList "'#%41".toList,
        .custom "é".toList []] ∧
      parse "People?$search=a%26b&@p%3D=%27%23%2541&%C3%A9".toList =
        .ok ⟨"People".toList, [⟨.system .search, "a&b".toList⟩, ⟨.custom "@p=".toList, "'#%41".toList⟩,
          ⟨.custom "é".toList, []⟩]⟩ := by
  have hquery : Queryable [.system (.mk .search (.search "a&b".toList)),
      .custom "@p=".toList "'#%41".toList, .custom "é".toList []] := by
    refine ⟨by decide, by decide, ?_⟩
    rintro name value hmem
    simp only [List.mem_cons, List.not_mem_nil, or_false, reduceCtorEq, false_or,
      RequestOption.custom.injEq] at hmem
    rcases hmem with ⟨rfl, -⟩ | ⟨rfl, -⟩ <;> decide
  refine ⟨hquery, ?_⟩
  have hparse := @parse_encoded "People".toList _ (by decide) (by decide) hquery
  have htext : "People".toList ++ '?' :: joinTexts '&' ([.system (.mk .search (.search "a&b".toList)),
      .custom "@p=".toList "'#%41".toList, .custom "é".toList []].map encoded) =
        "People?$search=a%26b&@p%3D=%27%23%2541&%C3%A9".toList := by
    decide
  rw [htext] at hparse
  exact hparse

end RawRequest

end ODataRequest
