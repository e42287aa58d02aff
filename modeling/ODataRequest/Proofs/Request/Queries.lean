import Mathlib.Data.Bool.AllAny
import Mathlib.Data.List.Forall2
import ODataRequest.Proofs.Path.Layout
import ODataRequest.Proofs.Query.RoundTrip
import ODataRequest.Proofs.Request.Pairs
import ODataRequest.Request.Build

/-! The query of a canonical request. Each option is written as a pair whose name and value stand in
it escaped, so that the pairs are found again, and each value is read again as what it was. -/

namespace ODataRequest

open Text Nesting

/-! ### Names -/

namespace QueryOptionName

/-- Names that the pairs of a query can have, after pairs of other names. -/
def Accepted : (seen names : List QueryOptionName) → Prop
  | _, [] => True
  | seen, name :: names =>
    parse name.render = .ok name ∧ RawRequest.checkDistinct seen name = .ok () ∧
      Accepted (name :: seen) names

variable {name : QueryOptionName} {text : Text}

/-- A name that was read is written as its text. -/
theorem render_of_parse (h : parse text = .ok name) : name.render = text := by
  rw [parse] at h
  split at h
  · cases h
  split at h
  · cases h
    rfl
  split at h
  · cases h
  · rename_i option _ hoption
    cases h
    exact (SystemOption.ofName?_eq_some_iff.mp hoption).symm
  · cases h

theorem parse_render_of_parse (h : parse text = .ok name) : parse name.render = .ok name := by
  rw [render_of_parse h, h]

theorem render_ne_nil (h : parse name.render = .ok name) : name.render ≠ [] := by
  intro hnil
  rw [hnil] at h
  cases h

theorem accepted_of_pairs {fuel : Nat} {seen : List QueryOptionName} {pairs : List QueryPair}
    (h : RawRequest.pairs fuel seen text = .ok pairs) : Accepted seen (pairs.map QueryPair.name) := by
  induction fuel generalizing seen text pairs with
  | zero =>
      cases h
      exact trivial
  | succ fuel ih =>
      cases text with
      | nil =>
          cases h
          exact trivial
      | cons c text =>
          rw [RawRequest.pairs_cons] at h
          dsimp only at h
          split at h
          · exact ih h
          · obtain ⟨decoded, -, h⟩ := bind_eq_ok.mp h
            obtain ⟨name, hname, h⟩ := bind_eq_ok.mp h
            obtain ⟨_, hdistinct, h⟩ := bind_eq_ok.mp h
            obtain ⟨value, -, h⟩ := bind_eq_ok.mp h
            obtain ⟨others, hothers, h⟩ := bind_eq_ok.mp h
            cases h
            exact ⟨parse_render_of_parse hname, hdistinct, ih hothers⟩

end QueryOptionName

/-! ### Options as pairs -/

namespace RequestOption

/-- The query pair that an option is written as. -/
def pair : RequestOption → QueryPair
  | .system option => ⟨.system option.name, option.value.render⟩
  | .custom name value => ⟨.custom name, value⟩

def rawName : RequestOption → Text
  | .system option => option.name.name
  | .custom name _ => encodedName name

/-- The name and, with its equals sign, the value of an option that is not both custom and empty. -/
theorem encoded_cases (option : RequestOption) :
    option.encoded = option.rawName ++ '=' :: Percent.escape .queryValue option.pair.value ∨
      (∃ name, option = .custom name []) ∧ option.encoded = option.rawName := by
  cases option with
  | system option => exact Or.inl rfl
  | custom name value =>
      cases value with
      | nil => exact Or.inr ⟨⟨name, rfl⟩, List.append_nil _⟩
      | cons c value => exact Or.inl rfl

theorem unescape_encodedName (name : Text) : Percent.unescape (encodedName name) = .ok name := by
  rw [encodedName.eq_def]
  split
  · rename_i rest
    have hbytes : Percent.unescapedBytes (Percent.escape .queryValue rest) = Utf8.encode rest := by
      have happend := @Percent.unescapedBytes_escape .queryValue rest []
      rwa [List.append_nil, Percent.unescapedBytes, List.append_nil] at happend
    rw [Percent.unescape, Percent.unescapedBytes_of_ne (by decide), hbytes]
    exact Utf8.decode_encode ('@' :: rest)
  · exact Percent.unescape_escape name

/-- No mark that delimits the parts of a request stands in a raw name. -/
theorem not_mem_rawName (option : RequestOption) {mark : Char} (h : mark ∈ "=&#".toList) :
    mark ∉ option.rawName := by
  cases option with
  | system option =>
      have hnames : ∀ option : SystemOption, ∀ mark ∈ "=&#".toList, mark ∉ option.name := by
        intro option
        cases option <;> exact List.all_iff_forall_prop.mp (by decide)
      exact hnames option.name mark h
  | custom name value =>
      have hmarks : ∀ mark ∈ "=&#".toList, Percent.Profile.queryValue.Excludes mark ∧ mark ≠ '@' :=
        List.all_iff_forall_prop.mp (by decide)
      obtain ⟨hexcludes, halias⟩ := hmarks mark h
      rw [rawName, encodedName.eq_def]
      split
      · rw [List.mem_cons, not_or]
        exact ⟨halias, Percent.not_mem_escape hexcludes _⟩
      · exact Percent.not_mem_escape hexcludes _

theorem decode_rawName (option : RequestOption) :
    RawRequest.decode option.rawName option.rawName = .ok option.pair.name.render := by
  cases option with
  | system option =>
      have hnames : ∀ option : SystemOption, '%' ∉ option.name := by
        intro option
        cases option <;> decide
      exact RawRequest.decode_bare (hnames option.name)
  | custom name value => rw [RawRequest.decode, rawName, unescape_encodedName, pair]; rfl

theorem rawName_ne_nil {option : RequestOption}
    (h : QueryOptionName.parse option.pair.name.render = .ok option.pair.name) :
    option.rawName ≠ [] := by
  intro hnil
  have hdecode := option.decode_rawName
  rw [hnil] at hdecode
  exact QueryOptionName.render_ne_nil h (Except.ok.inj hdecode).symm

theorem rawName_chars (option : RequestOption) : option.rawName.all RawRequest.isNameChar = true := by
  rw [List.all_eq_true]
  intro c hc
  rw [RawRequest.isNameChar, Bool.and_eq_true, bne_iff_ne, bne_iff_ne]
  constructor
  · rintro rfl
    exact option.not_mem_rawName (by decide) hc
  · rintro rfl
    exact option.not_mem_rawName (by decide) hc

/-- An escaped value ends at the next separator of pairs, whether nesting matters or not. -/
theorem spanValue_escape (name : QueryOptionName) (value : Text) {rest : Text}
    (h : RawRequest.EndsPair rest) :
    RawRequest.spanValue name (Percent.escape .queryValue value ++ rest) =
      (Percent.escape .queryValue value, rest) := by
  have hexcludes : ∀ mark ∈ "\x27();&".toList, Percent.Profile.queryValue.Excludes mark :=
    List.all_iff_forall_prop.mp (by decide)
  have hne : ∀ mark ∈ "\x27();&".toList, ∀ c ∈ Percent.escape .queryValue value, c ≠ mark := by
    rintro mark hmark c hc rfl
    exact Percent.not_mem_escape (hexcludes c hmark) value hc
  have hclosed : Closed separates (Percent.escape .queryValue value) := by
    refine Closed.plain (List.all_eq_true.mpr fun c hc => ?_)
    have hquote : c ≠ quoteMark := hne _ (by decide) c hc
    simp [isPlain, separates, hquote, hne '(' (by decide) c hc, hne ')' (by decide) c hc,
      hne ';' (by decide) c hc, hne '&' (by decide) c hc]
  have hrun : (Percent.escape .queryValue value).all (· != '&') = true :=
    List.all_eq_true.mpr fun c hc => bne_iff_ne.mpr (hne '&' (by decide) c hc)
  have hrest : rest.head?.any (· != '&') = false := by
    rcases h with rfl | ⟨others, rfl⟩ <;> rfl
  have hplain : ((Percent.escape .queryValue value ++ rest).takeWhile (· != '&'),
      (Percent.escape .queryValue value ++ rest).dropWhile (· != '&')) =
        (Percent.escape .queryValue value, rest) := by
    rw [takeWhile_run hrun hrest, dropWhile_run hrun hrest]
  cases name with
  | system option =>
      rw [RawRequest.spanValue.eq_def]
      dsimp only
      split
      · exact RawRequest.spanTopLevel_closed rfl hclosed h
      · exact hplain
  | custom name => exact hplain

/-- An option that is written out is read as its pair. -/
theorem pairs_encoded {option : RequestOption} {fuel : Nat} {seen : List QueryOptionName} {rest : Text}
    (hname : QueryOptionName.parse option.pair.name.render = .ok option.pair.name)
    (hdistinct : RawRequest.checkDistinct seen option.pair.name = .ok ())
    (hrest : RawRequest.EndsPair rest) :
    RawRequest.pairs (fuel + 1) seen (option.encoded ++ rest) =
      (RawRequest.pairs fuel (option.pair.name :: seen) (rest.drop 1)).map (option.pair :: ·) := by
  have hraw := rawName_ne_nil hname
  rcases option.encoded_cases with hencoded | ⟨⟨name, rfl⟩, hencoded⟩
  · rw [hencoded, List.append_assoc, List.cons_append, RawRequest.pairs_nameValue hraw
      option.rawName_chars option.decode_rawName hname (spanValue_escape _ _ hrest)
      (by rw [RawRequest.decode, Percent.unescape_escape]), hdistinct]
    rfl
  · have hafter : rest.head?.any RawRequest.isNameChar = false := by
      rcases hrest with rfl | ⟨others, rfl⟩ <;> rfl
    have hspan : RawRequest.spanAfter (.custom name) rest = ([], rest) := by
      rcases hrest with rfl | ⟨others, rfl⟩ <;> rfl
    rw [hencoded, RawRequest.pairs_name hraw (rawName_chars _) hafter (decode_rawName _) hname, hdistinct]
    have hspan' : RawRequest.spanAfter (RequestOption.custom name []).pair.name rest = ([], rest) := hspan
    rw [hspan']
    rfl

end RequestOption

namespace CanonicalUri

variable {options : List RequestOption}

theorem renderQuery_cons (option : RequestOption) (options : List RequestOption) :
    renderQuery (option :: options) =
      option.encoded ++ options.flatMap ('&' :: ·.encoded) := by
  rw [renderQuery, List.map_cons, joinTexts_cons, List.flatMap_map]

theorem encoded_ne_nil {option : RequestOption}
    (h : QueryOptionName.parse option.pair.name.render = .ok option.pair.name) :
    option.encoded ≠ [] := by
  have hraw := RequestOption.rawName_ne_nil h
  rcases option.encoded_cases with hencoded | ⟨-, hencoded⟩
  · rw [hencoded]
    simp [hraw]
  · rwa [hencoded]

/-- The query of options is cut into their pairs. -/
theorem pairs_renderQuery {fuel : Nat} {seen : List QueryOptionName}
    (h : QueryOptionName.Accepted seen (options.map (·.pair.name)))
    (hfuel : (renderQuery options).length ≤ fuel) :
    RawRequest.pairs fuel seen (renderQuery options) = .ok (options.map RequestOption.pair) := by
  induction options generalizing fuel seen with
  | nil =>
      have hempty : renderQuery [] = [] := rfl
      rw [hempty]
      cases fuel <;> rfl
  | cons option options ih =>
      obtain ⟨hname, hdistinct, hothers⟩ := h
      have hlength := List.length_pos_iff.mpr (encoded_ne_nil hname)
      rw [renderQuery_cons] at hfuel ⊢
      rw [List.length_append] at hfuel
      obtain ⟨fuel, rfl⟩ : ∃ n, fuel = n + 1 := ⟨fuel - 1, by omega⟩
      cases options with
      | nil =>
          rw [List.flatMap_nil, RequestOption.pairs_encoded hname hdistinct (Or.inl rfl)]
          cases fuel <;> rfl
      | cons second options =>
          have htail : (second :: options).flatMap ('&' :: ·.encoded) =
              '&' :: renderQuery (second :: options) := by
            rw [renderQuery_cons, List.flatMap_cons]
            rfl
          rw [htail, List.length_cons] at hfuel
          rw [htail, RequestOption.pairs_encoded hname hdistinct (Or.inr ⟨_, rfl⟩), List.drop_one,
            List.tail_cons, ih hothers (by omega)]
          rfl

/-- Neither the separator of pairs nor that of a fragment stands in an encoded option. -/
theorem not_mem_encoded (option : RequestOption) {mark : Char} (h : mark ∈ "&#".toList) :
    mark ∉ option.encoded := by
  have hmarks : ∀ mark ∈ "&#".toList,
      mark ∈ "=&#".toList ∧ mark ≠ '=' ∧ Percent.Profile.queryValue.Excludes mark :=
    List.all_iff_forall_prop.mp (by decide)
  obtain ⟨hmark, hequals, hexcludes⟩ := hmarks mark h
  have hname : mark ∉ option.rawName := option.not_mem_rawName hmark
  rcases option.encoded_cases with hencoded | ⟨-, hencoded⟩
  · rw [hencoded, List.mem_append, List.mem_cons, not_or, not_or]
    exact ⟨hname, hequals, Percent.not_mem_escape hexcludes _⟩
  · rwa [hencoded]

theorem not_mem_renderQuery (options : List RequestOption) : '#' ∉ renderQuery options := by
  cases options with
  | nil => exact List.not_mem_nil
  | cons option options =>
      rw [renderQuery_cons, List.mem_append, List.mem_flatMap, not_or]
      refine ⟨not_mem_encoded option (by decide), fun hmem => ?_⟩
      obtain ⟨other, -, hother⟩ := hmem
      rw [List.mem_cons] at hother
      rcases hother with hmark | hother
      · exact absurd hmark (by decide)
      · exact not_mem_encoded other (by decide) hother

/-- The relative text of a path and options is cut into the path and the pairs of the options. -/
theorem parse_renderRelative (path : ResourcePath) (style : KeyStyle)
    (h : QueryOptionName.Accepted [] (options.map (·.pair.name))) :
    RawRequest.parse (renderRelative path options style) =
      .ok ⟨path.render style, options.map RequestOption.pair⟩ := by
  have hmark : '?' ∉ path.render style :=
    ResourcePath.not_mem_render (by decide) (by decide) path style
  have hfragment : '#' ∉ path.render style :=
    ResourcePath.not_mem_render (by decide) (by decide) path style
  rw [renderRelative]
  split
  · rename_i hempty
    cases options with
    | nil =>
        rw [List.append_nil]
        exact RawRequest.parse_path hmark hfragment
    | cons option options =>
        rw [List.isEmpty_iff, renderQuery_cons] at hempty
        exact absurd (List.append_eq_nil_iff.mp hempty).1 (encoded_ne_nil h.1)
  · rw [RawRequest.parse_query hmark hfragment (not_mem_renderQuery options),
      pairs_renderQuery h (Nat.le_refl _)]
    rfl

end CanonicalUri

/-! ### Values -/

namespace ParsedRequest

variable {maxDepth : Nat} {pairs : List QueryPair} {options : List RequestOption}

/-- Every pair is read by itself, as the option in its place. -/
theorem forall₂_of_readOptions (h : readOptions maxDepth pairs = .ok options) :
    List.Forall₂ (fun pair option => readOption maxDepth pair = .ok option) pairs options := by
  induction pairs generalizing options with
  | nil =>
      cases h
      exact .nil
  | cons pair pairs ih =>
      obtain ⟨option, hoption, h⟩ := bind_eq_ok.mp h
      obtain ⟨others, hothers, h⟩ := bind_eq_ok.mp h
      cases h
      exact .cons hoption (ih hothers)

theorem name_of_readOption {pair : QueryPair} {option : RequestOption}
    (h : readOption maxDepth pair = .ok option) : option.pair.name = pair.name := by
  rw [readOption] at h
  split at h
  · rename_i name hname
    split at h
    · cases h
      exact hname.symm
    · cases h
  · rename_i name hname
    cases h
    exact hname.symm

theorem names_of_readOptions (h : readOptions maxDepth pairs = .ok options) :
    options.map (·.pair.name) = pairs.map QueryPair.name := by
  have hall := forall₂_of_readOptions h
  clear h
  induction hall with
  | nil => rfl
  | cons hfirst _ ih => rw [List.map_cons, List.map_cons, name_of_readOption hfirst, ih]

/-- An option that was read is read from its pair again. -/
theorem readOption_pair {pair : QueryPair} {option : RequestOption}
    (h : readOption maxDepth pair = .ok option)
    (hnegated : ∀ parsed, option.system? = some parsed → parsed.value.negatedLiterals = []) :
    readOption maxDepth option.pair = .ok option := by
  rw [readOption] at h
  split at h
  · rename_i name hname
    split at h
    · rename_i value hvalue
      cases h
      have hagain : OptionValue.parse name value.render maxDepth = .ok value :=
        (OptionValue.parse_render_iff (OptionValue.fits_of_parse hvalue)).mpr
          (OptionValue.reread_of_negatedLiterals_eq_nil (hnegated (.mk name value) rfl))
      rw [readOption, RequestOption.pair]
      simp only [ParsedOption.name, ParsedOption.value, hagain]
    · cases h
  · cases h
    rfl

theorem readOptions_pair (h : readOptions maxDepth pairs = .ok options)
    (hnegated : ∀ option ∈ options.filterMap RequestOption.system?, option.value.negatedLiterals = []) :
    readOptions maxDepth (options.map RequestOption.pair) = .ok options := by
  have hall := forall₂_of_readOptions h
  clear h
  induction hall with
  | nil => rfl
  | cons hfirst _ ih =>
      rename_i pair option pairs options _
      have hread := readOption_pair hfirst fun parsed hparsed =>
        hnegated parsed (List.mem_filterMap.mpr ⟨option, List.mem_cons_self, hparsed⟩)
      have hreads := ih fun parsed hparsed => by
        refine hnegated parsed ?_
        obtain ⟨found, hfound, hsystem⟩ := List.mem_filterMap.mp hparsed
        exact List.mem_filterMap.mpr ⟨found, List.mem_cons_of_mem option hfound, hsystem⟩
      rw [List.map_cons, readOptions, hread, hreads]
      rfl

end ParsedRequest

end ODataRequest
