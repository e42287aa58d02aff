import ODataRequest.Proofs.Query.Inversion
import ODataRequest.Proofs.Query.Lists
import ODataRequest.Proofs.Query.Signs

/-! Items, option values and lists of options that are written out, over any reader of what nests in
them. -/

namespace ODataRequest

open Text Unicode Nesting Reader

namespace Ends

variable {marks : List Symbol} {rest : Text}

theorem stopsItem (h : Ends itemMarks rest) (strength : Nat) : Stops strength rest :=
  h.stops (by decide)

theorem item (h : Ends valueMarks rest) : Ends itemMarks rest :=
  h.mono (by simp)

end Ends

namespace Grammar

variable {inner : GoalReader} {scopes : Scopes} {text rest : Text}

/-! ### Sort keys -/

theorem isName_desc : Lexeme.isName "desc".toList = true := by
  decide

theorem next?_desc (h : Lexeme.breaks rest = true) :
    Lexeme.next? (" desc".toList ++ rest) = .ok (some ⟨.name "desc".toList, "desc".toList ++ rest, rest⟩) := by
  show Lexeme.next? (' ' :: ("desc".toList ++ rest)) = _
  rw [Lexeme.next?_space, Lexeme.next?_name isName_desc h]

theorem stops_direction (direction : SortDirection) (h : Ends itemMarks rest) (strength : Nat) :
    Stops strength (direction.render ++ rest) := by
  cases direction with
  | ascending => exact h.stopsItem strength
  | descending =>
      refine ⟨rfl, _, next?_desc (h.stopsItem 1).breaks, ?_⟩
      rintro lexeme hlexeme hcarries
      cases hlexeme
      obtain ⟨op, hkeyword, -⟩ := hcarries
      revert hkeyword
      cases op <;> decide

theorem sortDirection_render (direction : SortDirection) (h : Ends itemMarks rest) :
    sortDirection (direction.render ++ rest) = .ok (direction, rest) := by
  cases direction with
  | ascending =>
      show sortDirection rest = _
      rw [sortDirection, h.word? (by decide), ok_bind]
      dsimp only
      rw [h.word? (by decide)]
      rfl
  | descending =>
      have hword := word?_of_name (next?_desc (h.stopsItem 1).breaks)
      show sortDirection (" desc".toList ++ rest) = _
      rw [sortDirection, hword]
      rfl

theorem sortDirection_of_minus (h : text.head? = some '-') : Derails (sortDirection text) := by
  refine Derails.of_bind fun descending hdescending => ?_
  cases word?_of_minus h hdescending
  refine Derails.of_bind fun ascending hascending => ?_
  cases word?_of_minus h hascending
  exact .of_minus h

theorem reads_orderByItem {expected : Option Expression} {key : Text} (direction : SortDirection)
    (hkey : ReadsAs (expression inner scopes (key ++ (direction.render ++ rest))) expected
      (direction.render ++ rest)) (hrest : Ends itemMarks rest) :
    ReadsAs (orderByItem inner scopes (key ++ direction.render ++ rest))
      (expected.map (.mk · direction)) rest := by
  rw [List.append_assoc]
  refine ReadsAs.bind_map hkey ?_ ?_
  · intro value
    dsimp only
    rw [sortDirection_render direction hrest]
    rfl
  · intro value text hminus
    exact (sortDirection_of_minus hminus).bind fun _ _ hminus => .of_minus hminus

/-! ### Select items and targets of expansions -/

theorem isName_countSegment : Lexeme.isName countSegment = true := by
  decide

theorem isName_refSegment : Lexeme.isName refSegment = true := by
  decide

theorem symbol?_star_of_route {route : PropertyAccess} (h : route.IsMemberPath) {tail : Text}
    (htail : Lexeme.breaks tail = true) : symbol? .star (route.render ++ tail) = .ok none := by
  obtain ⟨qualifier, path⟩ := route
  obtain ⟨hbare, hnonempty, hmembers⟩ := h
  cases hbare
  cases path with
  | nil => exact absurd rfl hnonempty
  | cons head members =>
      replace hmembers : (head :: members).all isMember = true := hmembers
      rw [List.all_cons, Bool.and_eq_true] at hmembers
      have hrender : (PropertyAccess.mk none (head :: members)).render = head ++ memberText members :=
        joinTexts_cons '/' _ _
      have hbreaks : Lexeme.breaks (memberText members ++ tail) = true := by
        cases members with
        | nil => exact htail
        | cons member members => rfl
      rw [hrender, List.append_assoc]
      exact symbol?_of_name (Lexeme.next?_name (isName_of_isMember hmembers.1) hbreaks)

theorem selectItem_render {item : SelectItem} (h : item.WellFormed) (hrest : Ends itemMarks rest) :
    selectItem (item.render ++ rest) = .ok (item, rest) := by
  have hstops := hrest.stopsItem 1
  have hslash : symbol? .slash rest = .ok none := hstops.symbol? (Or.inl rfl)
  cases item with
  | all =>
      have hstar : symbol? .star ('*' :: rest) = _ := symbol?_mark .star rest
      rw [SelectItem.render, List.singleton_append, selectItem, hstar]
      rfl
  | path route =>
      rw [SelectItem.render, selectItem, symbol?_star_of_route h hstops.breaks, ok_bind]
      dsimp only
      rw [memberPath_route h (.of_stops hstops), ok_bind]
      dsimp only
      rw [controlSegment?_none hslash]
      rfl
  | count route =>
      have hends : EndsMembers ('/' :: countSegment ++ rest) :=
        .of_control isName_countSegment rfl hstops.breaks
      rw [SelectItem.render, PropertyAccess.renderCount, List.append_assoc, selectItem,
        symbol?_star_of_route h hends.breaks, ok_bind]
      dsimp only
      rw [memberPath_route h hends, ok_bind]
      dsimp only
      rw [controlSegment?_control isName_countSegment hstops.breaks]
      rfl

/-- A target ends where no path goes on. -/
theorem expandTarget_render {target : ExpandTarget} (h : target.WellFormed)
    (hrest : Lexeme.breaks rest = true) (hslash : symbol? .slash rest = .ok none) :
    expandTarget (target.render ++ rest) = .ok (target, rest) := by
  have hrest' : EndsMembers rest := ⟨hrest, Or.inl hslash⟩
  cases target with
  | all =>
      have hstar : symbol? .star ('*' :: rest) = _ := symbol?_mark .star rest
      rw [ExpandTarget.render, List.singleton_append, expandTarget, hstar, ok_bind]
      dsimp only
      rw [controlSegment?_none hslash]
      rfl
  | allRefs =>
      have hstar : symbol? .star ('*' :: ('/' :: refSegment ++ rest)) = _ := symbol?_mark .star _
      show expandTarget ('*' :: ('/' :: refSegment ++ rest)) = _
      rw [expandTarget, hstar, ok_bind]
      dsimp only
      rw [controlSegment?_control isName_refSegment hrest]
      rfl
  | path route =>
      rw [ExpandTarget.render, expandTarget, symbol?_star_of_route h hrest, ok_bind]
      dsimp only
      rw [memberPath_route h hrest', ok_bind]
      dsimp only
      rw [controlSegment?_none hslash, ok_bind]
      dsimp only
      rw [controlSegment?_none hslash]
      rfl
  | count route =>
      have hends : EndsMembers ('/' :: countSegment ++ rest) :=
        .of_control isName_countSegment rfl hrest
      rw [ExpandTarget.render, PropertyAccess.renderCount, List.append_assoc, expandTarget,
        symbol?_star_of_route h hends.breaks, ok_bind]
      dsimp only
      rw [memberPath_route h hends, ok_bind]
      dsimp only
      rw [controlSegment?_control isName_countSegment hrest]
      rfl
  | ref route =>
      have hends : EndsMembers ('/' :: refSegment ++ rest) := .of_control isName_refSegment rfl hrest
      rw [ExpandTarget.render, List.append_assoc, expandTarget,
        symbol?_star_of_route h hends.breaks, ok_bind]
      dsimp only
      rw [memberPath_route h hends, ok_bind]
      dsimp only
      rw [controlSegment?_other isName_refSegment (by decide) hrest, ok_bind]
      dsimp only
      rw [controlSegment?_control isName_refSegment hrest]
      rfl

theorem reads_bareExpandItem {target : ExpandTarget} (h : target.WellFormed)
    (hrest : Ends itemMarks rest) :
    expandItem inner scopes (target.render ++ rest) = .ok (.mk target [], rest) := by
  have hstops := hrest.stopsItem 1
  rw [expandItem, expandTarget_render h hstops.breaks (hstops.symbol? (Or.inl rfl)), ok_bind]
  dsimp only
  rw [hstops.symbol? (Or.inr rfl)]
  rfl

/-- A target with its options in parentheses. -/
theorem reads_expandItem {target : ExpandTarget} {expected : Option (List ParsedOption)}
    (h : target.WellFormed)
    (hoptions : ReadsAs (inner (.options .expand) (.expand :: scopes) (text ++ ')' :: rest)) expected
      (')' :: rest)) :
    ReadsAs (expandItem inner scopes (target.render ++ parenthesized text ++ rest))
      (expected.map (.mk target)) rest := by
  have htext : target.render ++ parenthesized text ++ rest =
      target.render ++ '(' :: (text ++ ')' :: rest) := by
    simp [parenthesized]
  have hopen : symbol? .openParen ('(' :: (text ++ ')' :: rest)) = _ := symbol?_mark .openParen _
  have hslash : symbol? .slash ('(' :: (text ++ ')' :: rest)) = .ok none :=
    symbol?_of_symbol_ne (by decide) (Lexeme.next?_symbol .openParen _)
  rw [htext, expandItem, expandTarget_render h rfl hslash, ok_bind]
  dsimp only
  rw [hopen, ok_bind]
  exact reads_enclosed hoptions

/-! ### Values that are no expressions -/

theorem plainValue_append (htop : scopes = [] → rest = []) (hclosed : scopes ≠ [] → Closed separates text)
    (hrest : Ends valueMarks rest) : plainValue (!scopes.isEmpty) (text ++ rest) = (text, rest) := by
  by_cases hscopes : scopes = []
  · rw [hscopes, htop hscopes, List.append_nil]
    rfl
  · have hspan : spanVerbatim 0 false rest = ([], rest) := by
      rcases hrest with rfl | ⟨mark, hmem, others, rfl⟩
      · rfl
      · simp only [valueMarks, List.mem_cons, List.not_mem_nil, or_false] at hmem
        rcases hmem with rfl | rfl <;> rfl
    rw [plainValue_nested hscopes, spanVerbatim_append (hclosed hscopes), hspan, List.append_nil]

theorem verbatim_append {value : Text} (h : IsVerbatim scopes value) (htop : scopes = [] → rest = [])
    (hrest : Ends valueMarks rest) : verbatim (!scopes.isEmpty) (value ++ rest) = .ok (value, rest) := by
  rw [verbatim, plainValue_append htop h.closed hrest]
  dsimp only
  rw [h.trimmed, if_neg (by simpa using h.nonempty)]

theorem plainLiteral_append {α : Type} {parse : Text → Except InvalidLiteral α} {value : α}
    (h : parse text = .ok value) (hclosed : Closed separates text) (htop : scopes = [] → rest = [])
    (hrest : Ends valueMarks rest) :
    plainLiteral (!scopes.isEmpty) parse (text ++ rest) = .ok (value, rest) := by
  rw [plainLiteral, plainValue_append htop (fun _ => hclosed) hrest]
  dsimp only
  rw [h]

theorem digits_closed (n : Nat) : Closed separates (Text.ofNat n) := by
  apply Closed.plain
  rw [List.all_eq_true]
  intro c hc
  have hdigit := List.all_eq_true.mp (Number.isDigits_iff.mp (isDigits_ofNat n)).2 c hc
  exact Lexeme.isPlain_of_isNameContinue (Lexeme.isNameContinue_of_isDigit hdigit)

theorem trim_ofNat (n : Nat) : (Text.ofNat n).trim = Text.ofNat n := by
  have hall : ∀ c ∈ Text.ofNat n, isWhiteSpace c = false := fun c hc =>
    Lexeme.not_blank_of_isNameContinue (Lexeme.isNameContinue_of_isDigit
      (List.all_eq_true.mp (Number.isDigits_iff.mp (isDigits_ofNat n)).2 c hc))
  refine trim_of_ends ?_ ?_
  · cases hhead : (Text.ofNat n).head? with
    | none => rfl
    | some c => exact hall c (List.mem_of_head? hhead)
  · cases hlast : (Text.ofNat n).getLast? with
    | none => rfl
    | some c => exact hall c (List.mem_of_getLast? hlast)

theorem parseNonNegative_ofNat {n : Nat} (h : n ≤ Number.maxNatural) :
    parseNonNegative (Text.ofNat n) = .ok n := by
  rw [parseNonNegative, trim_ofNat, digitsValue_ofNat, if_pos ⟨isDigits_ofNat n, h⟩]

theorem parseLevels_ofNat {n : Nat} (h : n ≤ Number.maxNatural) :
    parseLevels (Text.ofNat n) = .ok (.depth n) := by
  have hmax : ¬Text.ofNat n = "max".toList := by
    intro heq
    have := isDigits_ofNat n
    rw [heq] at this
    cases this
  rw [parseLevels, trim_ofNat, if_neg hmax, parseNonNegative_ofNat h]

/-- A value that is no expression is read back, nested or alone. -/
theorem optionValue_plain {option : SystemOption} {value : OptionValue} (h : value.IsPlain scopes option)
    (htop : scopes = [] → rest = []) (hrest : Ends valueMarks rest) :
    optionValue inner scopes option (value.render ++ rest) = .ok (value, rest) := by
  cases h with
  | top hbound | skip hbound =>
      rw [OptionValue.render, optionValue]
      dsimp only
      rw [plainLiteral_append (parseNonNegative_ofNat hbound) (digits_closed _) htop hrest]
      rfl
  | count =>
      rename_i wanted
      have hparse : parseTruth (renderTruth wanted) = .ok wanted := by cases wanted <;> rfl
      have hclosed : Closed separates (renderTruth wanted) := by cases wanted <;> decide
      rw [OptionValue.render, optionValue]
      dsimp only
      rw [plainLiteral_append hparse hclosed htop hrest]
      rfl
  | depth hbound =>
      rw [OptionValue.render, Levels.render, optionValue]
      dsimp only
      rw [plainLiteral_append (parseLevels_ofNat hbound) (digits_closed _) htop hrest]
      rfl
  | max =>
      have hparse : parseLevels "max".toList = .ok .max := rfl
      rw [OptionValue.render, Levels.render, optionValue]
      dsimp only
      rw [plainLiteral_append hparse (by decide) htop hrest]
      rfl
  | search hverbatim | apply hverbatim | format hverbatim =>
      rw [OptionValue.render, optionValue]
      dsimp only
      rw [verbatim_append hverbatim htop hrest]
      rfl

/-! ### Lists of options -/

theorem isName_optionName (option : SystemOption) : Lexeme.isName option.name = true := by
  cases option <;> decide

theorem separator?_of_minus (h : text.head? = some '-') {found : Option Text}
    (hfound : separator? text = .ok found) : found = none := by
  obtain ⟨semicolon, hsemicolon, hfound⟩ := bind_eq_ok.mp hfound
  cases symbol?_of_minus h (by decide) hsemicolon
  exact symbol?_of_minus h (by decide) hfound

theorem separator?_semicolon (rest : Text) : separator? (';' :: rest) = .ok (some rest) := by
  have hsemicolon : symbol? .semicolon (';' :: rest) = _ := symbol?_mark .semicolon rest
  rw [separator?, hsemicolon]
  rfl

theorem separator?_close (rest : Text) : separator? (')' :: rest) = .ok none := by
  have hclose := Lexeme.next?_symbol .closeParen rest
  have hsemicolon : symbol? .semicolon (')' :: rest) = .ok none :=
    symbol?_of_symbol_ne (by decide) hclose
  rw [separator?, hsemicolon]
  exact symbol?_of_symbol_ne (by decide) hclose

theorem listedOption_name {kind : OptionListKind} {seen : List SystemOption} {option : SystemOption}
    (hallows : kind.allows option = true) (hseen : option ∉ seen) (start : Text) :
    listedOption kind seen option.name start = .ok option := by
  rw [listedOption, SystemOption.ofName?_name]
  dsimp only
  rw [hallows, Bool.not_true, if_neg Bool.false_ne_true, if_neg hseen]

/-- The texts of the options after the first one, each after its separator. -/
def optionText (options : List ParsedOption) : Text :=
  options.flatMap fun option => ';' :: option.render

/-- A list of options from its first value on. -/
theorem optionList_of_assignment {kind : OptionListKind} {fuel : Nat} {seen : List SystemOption}
    {option : SystemOption} (hallows : kind.allows option = true) (hseen : option ∉ seen)
    (h : Assignment text option rest) :
    optionList inner scopes kind fuel seen text = (do
      let read ← optionValue inner scopes option rest
      match ← separator? read.2 with
      | none => .ok ([.mk option read.1], read.2)
      | some after =>
        match fuel with
        | 0 => .ok ([.mk option read.1], read.2)
        | fuel + 1 =>
          let more ← optionList inner scopes kind fuel (option :: seen) after
          .ok (.mk option read.1 :: more.1, more.2)) := by
  obtain ⟨start, afterName, hnext, hequals⟩ := h
  have hsymbol : symbol .equals .equalsSign afterName = .ok rest := by
    rw [symbol, hequals]
    rfl
  have hlist := optionList.eq_def inner scopes kind fuel seen text
  simp only [name_of_next? hnext, ok_bind, listedOption_name hallows hseen, hsymbol] at hlist
  exact hlist

theorem breaks_of_blanks {blanks : Text} (h : blanks.all isWhiteSpace = true)
    (hnonempty : blanks ≠ []) (text : Text) : Lexeme.breaks (blanks ++ text) = true := by
  obtain ⟨c, others, rfl⟩ := List.exists_cons_of_ne_nil hnonempty
  exact (Stops.blank h : Stops 1 (c :: others)).breaks

theorem next?_optionName {sign : Text} (hsign : sign.all isWhiteSpace = true)
    (option : SystemOption) (text : Text) :
    Lexeme.next? (option.name ++ (sign ++ '=' :: text)) =
      .ok (some ⟨.name option.name, option.name ++ (sign ++ '=' :: text), sign ++ '=' :: text⟩) := by
  refine Lexeme.next?_name (isName_optionName option) ?_
  by_cases hnil : sign = []
  · rw [hnil]
    rfl
  · exact breaks_of_blanks hsign hnil _

theorem assignment_spaced {blanks sign : Text} (hblanks : blanks.all isWhiteSpace = true)
    (hsign : sign.all isWhiteSpace = true) (option : SystemOption) (text : Text) :
    Assignment (blanks ++ (option.name ++ (sign ++ '=' :: text))) option text := by
  refine ⟨_, _, (Lexeme.next?_blanks hblanks _).trans (next?_optionName hsign option text), ?_⟩
  rw [symbol?, Lexeme.next?_blanks hsign, ← symbol?]
  exact symbol?_mark .equals text

theorem assignment_name (option : SystemOption) (text : Text) :
    Assignment (option.name ++ '=' :: text) option text :=
  @assignment_spaced [] [] rfl rfl option text

/-- Options that differ from one that is read differ from those seen after it. -/
theorem fresh_cons {options : List ParsedOption} {name : SystemOption} {seen : List SystemOption}
    (hdistinct : name ∉ options.map ParsedOption.name)
    (hseen : ∀ option ∈ options, option.name ∉ seen) :
    ∀ option ∈ options, option.name ∉ name :: seen := by
  intro option hoption hmem
  rcases List.mem_cons.mp hmem with heq | hmem
  · exact hdistinct (List.mem_map.mpr ⟨option, hoption, heq⟩)
  · exact hseen option hoption hmem

theorem rereadEach_option (reread : OptionValue → Option OptionValue) (option : SystemOption)
    (value : OptionValue) (others : List ParsedOption) :
    rereadEach (ParsedOption.rereadBy reread) (.mk option value :: others) =
      (reread value).bind fun value =>
        (rereadEach (ParsedOption.rereadBy reread) others).map (.mk option value :: ·) := by
  rw [rereadEach, ParsedOption.rereadBy, ParsedOption.value]
  cases reread value <;> rfl

/-- An option of a list, by what is read from where its value ends. -/
theorem reads_listed {kind : OptionListKind} {fuel : Nat} {seen : List SystemOption}
    {option : SystemOption} {value : OptionValue} {expected : Option OptionValue}
    {expect : OptionValue → Option (List ParsedOption)} {tail : Text}
    (hallows : kind.allows option = true) (hseen : option ∉ seen)
    (hvalue : ReadsAs (optionValue inner scopes option (value.render ++ tail)) expected tail)
    (htail : ∀ value, ReadsAs (do
      match ← separator? tail with
      | none => .ok ([.mk option value], tail)
      | some after =>
        match fuel with
        | 0 => .ok ([.mk option value], tail)
        | fuel + 1 =>
          let more ← optionList inner scopes kind fuel (option :: seen) after
          .ok (.mk option value :: more.1, more.2)) (expect value) rest) :
    ReadsAs (optionList inner scopes kind fuel seen ((ParsedOption.mk option value).render ++ tail))
      (expected.bind expect) rest := by
  have htext : (ParsedOption.mk option value).render ++ tail =
      option.name ++ '=' :: (value.render ++ tail) := by
    simp [ParsedOption.render]
  rw [htext, optionList_of_assignment hallows hseen (assignment_name option _)]
  refine ReadsAs.bind hvalue (fun value _ => htail value) ?_
  intro value text hminus
  refine Derails.of_bind fun found hfound => ?_
  cases separator?_of_minus hminus hfound
  exact .of_minus hminus

theorem reads_optionList {kind : OptionListKind} {first : ParsedOption} {options : List ParsedOption}
    {fuel : Nat} {seen : List SystemOption} {reread : OptionValue → Option OptionValue}
    (hvalues : ∀ option ∈ first :: options, ∀ rest, Ends valueMarks rest →
      ReadsAs (optionValue inner scopes option.name (option.value.render ++ rest))
        (reread option.value) rest)
    (hallowed : ∀ option ∈ first :: options, kind.allows option.name = true)
    (hseen : ∀ option ∈ first :: options, option.name ∉ seen)
    (hdistinct : ((first :: options).map ParsedOption.name).Nodup) (hfuel : options.length ≤ fuel) :
    ReadsAs (optionList inner scopes kind fuel seen
      (first.render ++ (optionText options ++ ')' :: rest)))
      (rereadEach (ParsedOption.rereadBy reread) (first :: options)) (')' :: rest) := by
  induction options generalizing first fuel seen with
  | nil =>
      obtain ⟨option, value⟩ := first
      have hvalue := hvalues _ List.mem_cons_self (')' :: rest) (Or.inr ⟨.closeParen, by simp, rest, rfl⟩)
      rw [rereadEach_option]
      refine reads_listed (hallowed _ List.mem_cons_self) (hseen _ List.mem_cons_self) hvalue ?_
      intro value
      show separator? (')' :: rest) >>= _ = _
      rw [separator?_close]
      rfl
  | cons second options ih =>
      obtain ⟨option, value⟩ := first
      obtain ⟨fuel, rfl⟩ : ∃ below, fuel = below + 1 :=
        ⟨fuel - 1, by rw [List.length_cons] at hfuel; omega⟩
      have htext : optionText (second :: options) ++ ')' :: rest =
          ';' :: (second.render ++ (optionText options ++ ')' :: rest)) := by
        simp [optionText]
      have hvalue := hvalues _ List.mem_cons_self
        (';' :: (second.render ++ (optionText options ++ ')' :: rest)))
        (Or.inr ⟨.semicolon, by simp, _, rfl⟩)
      rw [List.map_cons, List.nodup_cons] at hdistinct
      have hothers := ih (fun other hmem => hvalues other (List.mem_cons_of_mem _ hmem))
        (fun other hmem => hallowed other (List.mem_cons_of_mem _ hmem))
        (fresh_cons hdistinct.1 fun other hmem => hseen other (List.mem_cons_of_mem _ hmem))
        hdistinct.2 (by rw [List.length_cons] at hfuel; omega : options.length ≤ fuel)
      rw [htext, rereadEach_option]
      refine reads_listed (hallowed _ List.mem_cons_self) (hseen _ List.mem_cons_self) hvalue ?_
      intro value
      rw [separator?_semicolon, ok_bind]
      exact hothers.bind_map (fun _ => rfl) fun _ _ hminus => .of_minus hminus

/-- A list of options is read as its options are, up to the closing parenthesis. -/
theorem reads_options {kind : OptionListKind} {options : List ParsedOption}
    {reread : OptionValue → Option OptionValue} (hnonempty : options ≠ [])
    (hvalues : ∀ option ∈ options, ∀ rest, Ends valueMarks rest →
      ReadsAs (optionValue inner scopes option.name (option.value.render ++ rest))
        (reread option.value) rest)
    (hallowed : ∀ option ∈ options, kind.allows option.name = true)
    (hdistinct : (options.map ParsedOption.name).Nodup) :
    ReadsAs (level inner (.options kind) scopes
      (joinTexts ';' (ParsedOption.renderAll options) ++ ')' :: rest))
      (rereadEach (ParsedOption.rereadBy reread) options) (')' :: rest) := by
  cases options with
  | nil => exact absurd rfl hnonempty
  | cons first options =>
      have htext : joinTexts ';' (ParsedOption.renderAll (first :: options)) ++ ')' :: rest =
          first.render ++ (optionText options ++ ')' :: rest) := by
        rw [ParsedOption.renderAll_eq_map, List.map_cons, joinTexts_cons, List.flatMap_map,
          List.append_assoc]
        rfl
      have hlength : options.length ≤ (first.render ++ (optionText options ++ ')' :: rest)).length := by
        have : options.length ≤ (optionText options).length :=
          length_le_separated ';' ParsedOption.render options
        rw [List.length_append, List.length_append]
        omega
      rw [htext]
      exact reads_optionList hvalues hallowed (by simp) hdistinct hlength

end Grammar

end ODataRequest
