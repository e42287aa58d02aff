import Mathlib.Data.List.Forall2
import ODataRequest.Proofs.Query.Continuation
import ODataRequest.Proofs.Query.RoundTrip

/-! Lists of options that are put together from texts. An option that is read on its own is read as the
same option between any others, whatever they hold, since no reader looks past the separator behind it.
Main statement: a text without surplus parentheses, unpaired quotes and separators of its own is kept
character by character as the value of a search, an apply or a format option at any position of a list,
and the other options of the list are what they are on their own. -/

namespace ODataRequest

open Text Unicode Nesting Reader Grammar

/-- A text that is an option of a list of a kind on its own. -/
structure ParsedOption.IsWritten (levels : Nat) (kind : OptionListKind) (outer : Scopes) (text : Text)
    (option : ParsedOption) : Prop where
  /-- Where the value is no expression, no separator stands outside quotes and parentheses, and these are
  paired. -/
  closed : option.name.isExpression = false → Closed separates text
  read : readWhole (nested (levels + 1) (.options kind) (kind.scope :: outer)) text = .ok [option]

/-- Texts with semicolons or ampersands between them. -/
inductive Joined : List Text → Text → Prop where
  | last (text : Text) : Joined [text] text
  | more {text list : Text} {texts : List Text} {mark : Symbol} (hmark : mark ∈ [.semicolon, .ampersand])
      (h : Joined texts list) : Joined (text :: texts) (text ++ mark.char :: list)

/-- The options whose text is kept as it is, with what they hold for a text. -/
def OptionValue.kept (text : Text) : List (SystemOption × OptionValue) :=
  [(.search, .search text), (.apply, .apply text), (.format, .format text)]

variable {text rest more blanks : Text} {kind : OptionListKind} {levels : Nat} {outer : Scopes}

theorem Joined.length_le {texts : List Text} {list : Text} (h : Joined texts list) :
    texts.length ≤ list.length + 1 := by
  induction h with
  | last text => exact Nat.le_add_left 1 text.length
  | more _ _ ih =>
      simp only [List.length_append, List.length_cons] at ih ⊢
      omega

namespace Grammar

/-! ### Separators behind white space -/

theorem endMark_of_separator {mark : Symbol} (hmark : mark ∈ [.semicolon, .ampersand]) :
    mark ∈ endMarks := by
  revert mark
  decide

theorem separator?_mark {mark : Symbol} (hmark : mark ∈ [.semicolon, .ampersand])
    (hblanks : blanks.all isWhiteSpace = true) (rest : Text) :
    separator? (blanks ++ mark.char :: rest) = .ok (some rest) := by
  rw [separator?, symbol?, symbol?, Lexeme.next?_blanks hblanks, ← symbol?, ← symbol?, ← separator?]
  simp only [List.mem_cons, List.not_mem_nil, or_false] at hmark
  rcases hmark with rfl | rfl
  · exact separator?_semicolon rest
  · rfl

theorem separator?_blanks_close (hblanks : blanks.all isWhiteSpace = true) (rest : Text) :
    separator? (blanks ++ ')' :: rest) = .ok none := by
  rw [separator?, symbol?, symbol?, Lexeme.next?_blanks hblanks, ← symbol?, ← symbol?, ← separator?]
  exact separator?_close rest

/-! ### An option on its own -/

theorem optionList_ne_nil {inner : GoalReader} {scopes : Scopes} {fuel : Nat} {seen : List SystemOption}
    {options : List ParsedOption}
    (h : optionList inner scopes kind fuel seen text = .ok (options, rest)) : options ≠ [] := by
  obtain ⟨option, value, _, _, -, -, -, -, ⟨rfl, -⟩ | ⟨_, others, _, -, rfl, -⟩⟩ := optionList_cases h
  · exact List.cons_ne_nil _ _
  · exact List.cons_ne_nil _ _

/-- The name and the sign of an option are closed. -/
theorem Assignment.closed {option : SystemOption} {after : Text} (h : Assignment text option after)
    (hclosed : Closed separates text) : Closed separates after := by
  obtain ⟨start, afterName, hnext, hequals⟩ := h
  obtain ⟨taken, rfl, htaken⟩ :=
    (passes_token hnext (by simp) 0).trans (passes_symbol? hequals rfl)
  exact (after?_append_of_eq htaken).symm.trans hclosed

end Grammar

open ParsedOption (IsWritten)

/-- Before a mark that ends it, a written option is read as it is on its own. -/
theorem ParsedOption.IsWritten.followed {option : ParsedOption} (h : IsWritten levels kind outer text option)
    {mark : Symbol} (hmark : mark ∈ endMarks) (more : Text) :
    kind.allows option.name = true ∧ ∃ after blanks, blanks.all isWhiteSpace = true ∧
      Assignment (text ++ mark.char :: more) option.name after ∧
      optionValue (nested levels) (kind.scope :: outer) option.name after =
        .ok (option.value, blanks ++ mark.char :: more) := by
  obtain ⟨rest, hread, hrest⟩ := eq_ok_of_readWhole h.read
  obtain ⟨name, value, after, afterValue, hallows, -, hassignment, hvalue,
    ⟨heq, rfl⟩ | ⟨_, others, _, -, heq, -, hothers⟩⟩ := optionList_cases hread
  · cases heq
    obtain ⟨blanks, hblanks, hvalue'⟩ := optionValue_followed hmark more (List.cons_ne_nil _ _) hallows
      (fun hplain => hassignment.closed (h.closed hplain)) hrest hvalue
    exact ⟨hallows, _, blanks, hblanks, Followed.assignment hmark hassignment, hvalue'⟩
  · cases heq
    exact absurd rfl (optionList_ne_nil hothers)

/-- A text that is kept as it is stands in a list by itself. -/
theorem ParsedOption.isWritten_kept {name : SystemOption} {value : OptionValue}
    (hkept : (name, value) ∈ OptionValue.kept text) (hallows : kind.allows name = true)
    (hnonempty : text ≠ []) (htrim : text.trim = text) (hclosed : Closed separates text) :
    IsWritten levels kind outer (name.name ++ '=' :: text) (.mk name value) := by
  have hverbatim : IsVerbatim (kind.scope :: outer) text := ⟨hnonempty, htrim, fun _ => hclosed⟩
  obtain ⟨hplain, hrender⟩ : value.IsPlain (kind.scope :: outer) name ∧ value.render = text := by
    simp only [OptionValue.kept, List.mem_cons, Prod.mk.injEq, List.not_mem_nil, or_false] at hkept
    rcases hkept with ⟨rfl, rfl⟩ | ⟨rfl, rfl⟩ | ⟨rfl, rfl⟩
    · exact ⟨.search hverbatim, rfl⟩
    · exact ⟨.apply hverbatim, rfl⟩
    · exact ⟨.format hverbatim, rfl⟩
  have hvalue : optionValue (nested levels) (kind.scope :: outer) name text = .ok (value, []) := by
    have hread := @optionValue_plain (nested levels) _ [] _ _ hplain nofun (Or.inl rfl)
    rwa [hrender, List.append_nil] at hread
  have hname : Closed separates (name.name ++ ['=']) := by cases name <;> decide
  refine ⟨fun _ => ?_, readWhole_eq_ok ?_⟩
  · have happend := hname.append hclosed
    rwa [List.append_assoc] at happend
  · show optionList (nested levels) (kind.scope :: outer) kind _ [] _ = _
    rw [optionList_of_assignment hallows (List.not_mem_nil) (assignment_name name text), hvalue]
    rfl

/-! ### Written options in a list -/

namespace ParsedOption.IsWritten

variable {option : ParsedOption} {seen : List SystemOption}

/-- A written option is the last one of a list before the closing parenthesis. -/
theorem optionList_last (h : IsWritten levels kind outer text option) (hseen : option.name ∉ seen)
    (fuel : Nat) (more : Text) : ∃ blanks, blanks.all isWhiteSpace = true ∧
      optionList (nested levels) (kind.scope :: outer) kind fuel seen (text ++ ')' :: more) =
        .ok ([option], blanks ++ ')' :: more) := by
  obtain ⟨hallows, after, blanks, hblanks, hassignment, hvalue⟩ :=
    h.followed (by decide : Symbol.closeParen ∈ endMarks) more
  have hclose : separator? (blanks ++ Symbol.closeParen.char :: more) = .ok none :=
    separator?_blanks_close hblanks more
  refine ⟨blanks, hblanks, ?_⟩
  show optionList _ _ kind fuel seen (text ++ Symbol.closeParen.char :: more) = _
  rw [optionList_of_assignment hallows hseen hassignment, hvalue, ok_bind]
  dsimp only
  rw [hclose]
  cases option
  rfl

/-- A written option stands in a list before a separator and the others. -/
theorem optionList_more (h : IsWritten levels kind outer text option) (hseen : option.name ∉ seen)
    {mark : Symbol} (hmark : mark ∈ [.semicolon, .ampersand]) (fuel : Nat) {others : List ParsedOption}
    {rest left : Text}
    (hothers : optionList (nested levels) (kind.scope :: outer) kind fuel (option.name :: seen) rest =
      .ok (others, left)) :
    optionList (nested levels) (kind.scope :: outer) kind (fuel + 1) seen (text ++ mark.char :: rest) =
      .ok (option :: others, left) := by
  obtain ⟨hallows, after, blanks, hblanks, hassignment, hvalue⟩ :=
    h.followed (endMark_of_separator hmark) rest
  rw [optionList_of_assignment hallows hseen hassignment, hvalue, ok_bind]
  dsimp only
  rw [separator?_mark hmark hblanks, ok_bind]
  dsimp only
  rw [hothers]
  cases option
  rfl

end ParsedOption.IsWritten

/-- Options that are written with separators between them are read up to the closing parenthesis. -/
theorem Grammar.optionList_joined {texts : List Text} {list : Text} {options : List ParsedOption}
    (hjoined : Joined texts list) (hwritten : List.Forall₂ (IsWritten levels kind outer) texts options)
    (hdistinct : (options.map ParsedOption.name).Nodup) {seen : List SystemOption}
    (hseen : ∀ option ∈ options, option.name ∉ seen) {fuel : Nat} (hfuel : texts.length ≤ fuel + 1)
    (more : Text) :
    ∃ blanks, blanks.all isWhiteSpace = true ∧
      optionList (nested levels) (kind.scope :: outer) kind fuel seen (list ++ ')' :: more) =
        .ok (options, blanks ++ ')' :: more) := by
  induction hjoined generalizing options seen fuel with
  | last text =>
      cases hwritten with
      | cons hoption hothers =>
          cases hothers
          exact hoption.optionList_last (hseen _ List.mem_cons_self) fuel more
  | @more text list texts mark hmark hjoined ih =>
      cases hwritten with
      | cons hoption hothers =>
          rw [List.map_cons, List.nodup_cons] at hdistinct
          have hfresh := fresh_cons hdistinct.1 fun other hother =>
            hseen other (List.mem_cons_of_mem _ hother)
          obtain ⟨fuel, rfl⟩ : ∃ below, fuel = below + 1 := by
            have hpos : 0 < texts.length := by cases hjoined <;> exact Nat.succ_pos _
            exact ⟨fuel - 1, by rw [List.length_cons] at hfuel; omega⟩
          obtain ⟨blanks, hblanks, hlist⟩ := ih hothers hdistinct.2 hfresh
            (Nat.le_of_succ_le_succ hfuel : texts.length ≤ fuel + 1)
          refine ⟨blanks, hblanks, ?_⟩
          rw [List.append_assoc, List.cons_append]
          exact hoption.optionList_more (hseen _ List.mem_cons_self) hmark fuel hlist

/-! ### The places of a list -/

namespace Grammar

variable {inner : GoalReader} {scopes : Scopes} {list : Text} {options : List ParsedOption}

/-- A list of options after a counted collection, anywhere in an expression. -/
theorem operand_counted {route : PropertyAccess}
    (hroute : PropertyAccess.Begins scopes route.qualifier route.path)
    (hblanks : blanks.all isWhiteSpace = true)
    (h : inner (.options .count) (.subquery :: scopes) (list ++ ')' :: rest) =
      .ok (options, blanks ++ ')' :: rest)) :
    operand inner scopes (route.renderCount ++ (parenthesized list ++ rest)) =
      .ok (.subquery (route.resolved scopes) options, rest) := by
  have htext : route.renderCount ++ (parenthesized list ++ rest) =
      route.render ++ '/' :: (countSegment ++ '(' :: (list ++ ')' :: rest)) := by
    simp [PropertyAccess.renderCount, parenthesized]
  have hopen : symbol? .openParen ('(' :: (list ++ ')' :: rest)) = .ok (some (list ++ ')' :: rest)) :=
    symbol?_mark .openParen _
  obtain ⟨fuel, hoperand⟩ :=
    operand_of_begins inner hroute (.of_slash (countSegment ++ '(' :: (list ++ ')' :: rest)))
  rw [htext, hoperand, ← List.cons_append, morePath_count rfl, counted, hopen, ok_bind]
  dsimp only
  rw [h, ok_bind]
  dsimp only
  rw [symbol_blanks_close hblanks, ok_bind]
  rfl

/-- A list of options after the target of an expansion. -/
theorem expandItem_options {target : ExpandTarget} (htarget : target.WellFormed)
    (hblanks : blanks.all isWhiteSpace = true)
    (h : inner (.options .expand) (.expand :: scopes) (list ++ ')' :: rest) =
      .ok (options, blanks ++ ')' :: rest)) :
    expandItem inner scopes (target.render ++ (parenthesized list ++ rest)) =
      .ok (.mk target options, rest) := by
  have htext : target.render ++ (parenthesized list ++ rest) =
      target.render ++ '(' :: (list ++ ')' :: rest) := by
    simp [parenthesized]
  have hopen : symbol? .openParen ('(' :: (list ++ ')' :: rest)) = .ok (some (list ++ ')' :: rest)) :=
    symbol?_mark .openParen _
  have hslash : symbol? .slash ('(' :: (list ++ ')' :: rest)) = .ok none :=
    symbol?_of_symbol_ne (by decide) (Lexeme.next?_symbol .openParen _)
  rw [htext, expandItem, expandTarget_render htarget rfl hslash, ok_bind]
  dsimp only
  rw [hopen, ok_bind]
  dsimp only
  rw [h, ok_bind]
  dsimp only
  rw [symbol_blanks_close hblanks, ok_bind]

end Grammar

namespace OptionListKind

/-- Up to the parenthesis behind it, and whatever follows that, the text is read as these options. -/
def ReadsList (levels : Nat) (outer : Scopes) (list : Text) (options : List ParsedOption)
    (kind : OptionListKind) : Prop :=
  ∀ more, ∃ blanks : Text, blanks.all isWhiteSpace = true ∧
    nested levels (.options kind) (kind.scope :: outer) (list ++ ')' :: more) =
      .ok (options, blanks ++ ')' :: more)

/-- The text in parentheses is read as these options in some scopes, after any counted collection of an
expression or after any target of an expansion, and whatever follows it. -/
def ReadsIn (levels : Nat) (outer : Scopes) (list : Text) (options : List ParsedOption) :
    OptionListKind → Prop
  | .count => ∀ (route : PropertyAccess) (rest : Text),
      PropertyAccess.Begins outer route.qualifier route.path →
        operand (nested levels) outer (route.renderCount ++ (parenthesized list ++ rest)) =
          .ok (.subquery (route.resolved outer) options, rest)
  | .expand => ∀ (target : ExpandTarget) (rest : Text), target.WellFormed →
      expandItem (nested levels) outer (target.render ++ (parenthesized list ++ rest)) =
        .ok (.mk target options, rest)

/-- The text in parentheses is accepted as these options behind a counted collection or an expansion that
is the whole text. -/
def ReadsWhole (maxDepth : Nat) (list : Text) (options : List ParsedOption) : OptionListKind → Prop
  | .count => ∀ route : PropertyAccess, PropertyAccess.Begins [] route.qualifier route.path →
      Expression.parse (route.renderCount ++ parenthesized list) maxDepth = .ok (.subquery route options)
  | .expand => ∀ target : ExpandTarget, target.WellFormed →
      OptionValue.parse .expand (target.render ++ parenthesized list) maxDepth =
        .ok (.expand [.mk target options])

theorem ReadsList.readsIn {list : Text} {options : List ParsedOption}
    (h : kind.ReadsList levels outer list options) : kind.ReadsIn levels outer list options := by
  cases kind with
  | count =>
      intro route rest hroute
      obtain ⟨blanks, hblanks, hread⟩ := h rest
      exact operand_counted hroute hblanks hread
  | expand =>
      intro target rest htarget
      obtain ⟨blanks, hblanks, hread⟩ := h rest
      exact expandItem_options htarget hblanks hread

theorem ReadsIn.readsWhole {list : Text} {options : List ParsedOption}
    (h : kind.ReadsIn levels [] list options) : kind.ReadsWhole levels list options := by
  cases kind with
  | count =>
      intro route hroute
      have hoperand := h route [] hroute
      have hresolved : route.resolved [] = route := by
        obtain ⟨qualifier, path⟩ := route
        cases qualifier <;> rfl
      rw [List.append_nil, hresolved] at hoperand
      exact mapError_eq_ok_iff.mpr (readWhole_eq_ok (strata_of_operand hoperand 5))
  | expand =>
      intro target htarget
      have hitem := h target [] htarget
      rw [List.append_nil] at hitem
      refine mapError_eq_ok_iff.mpr (readWhole_eq_ok ?_)
      rw [optionValue, commaList, hitem]
      rfl

end OptionListKind

/-- Written options that are joined are read as the options that they are, one after the other. -/
theorem Joined.readsList {texts : List Text} {list : Text} {options : List ParsedOption}
    (hjoined : Joined texts list) (hwritten : List.Forall₂ (IsWritten levels kind outer) texts options)
    (hdistinct : (options.map ParsedOption.name).Nodup) :
    kind.ReadsList (levels + 1) outer list options := by
  intro more
  refine optionList_joined hjoined hwritten hdistinct (fun _ _ => List.not_mem_nil) ?_ more
  have hlength := hjoined.length_le
  have happend : (list ++ ')' :: more).length = list.length + (more.length + 1) := List.length_append
  omega

/-- **A text that is kept as it is may stand at any position of a list of options: the list is read with
this very text as the value of a search, an apply or a format option, and with every other option as it
is read on its own, wherever such a list may stand.** -/
theorem Joined.reads_kept {name : SystemOption} {value : OptionValue} {list : Text}
    {before after : List Text} {optionsBefore optionsAfter : List ParsedOption}
    (hkept : (name, value) ∈ OptionValue.kept text) (hallows : kind.allows name = true)
    (hnonempty : text ≠ []) (htrim : text.trim = text) (hclosed : Closed separates text)
    (hbefore : List.Forall₂ (IsWritten levels kind outer) before optionsBefore)
    (hafter : List.Forall₂ (IsWritten levels kind outer) after optionsAfter)
    (hdistinct : ((optionsBefore ++ .mk name value :: optionsAfter).map ParsedOption.name).Nodup)
    (hjoined : Joined (before ++ (name.name ++ '=' :: text) :: after) list) :
    kind.ReadsList (levels + 1) outer list (optionsBefore ++ .mk name value :: optionsAfter) ∧
      kind.ReadsIn (levels + 1) outer list (optionsBefore ++ .mk name value :: optionsAfter) ∧
      (outer = [] →
        kind.ReadsWhole (levels + 1) list (optionsBefore ++ .mk name value :: optionsAfter)) := by
  have hwritten : List.Forall₂ (IsWritten levels kind outer)
      (before ++ (name.name ++ '=' :: text) :: after) (optionsBefore ++ .mk name value :: optionsAfter) :=
    List.rel_append hbefore
      (.cons (ParsedOption.isWritten_kept hkept hallows hnonempty htrim hclosed) hafter)
  have hlist := hjoined.readsList hwritten hdistinct
  refine ⟨hlist, hlist.readsIn, ?_⟩
  rintro rfl
  exact hlist.readsIn.readsWhole

/-- A text that begins with no token, between a filter and an expansion with options of its own. -/
theorem Joined.reads_kept_rejected :
    (Lexeme.next? "#a 'x;)' (b;c) %".toList).isOk = false ∧
      OptionValue.parse .expand
        "Orders($filter=A eq 'x;y' &$apply=#a 'x;)' (b;c) %; $expand=B($format=#;$top=2))".toList 2 =
        .ok (.expand [.mk (.path ⟨none, ["Orders".toList]⟩)
          [.mk .filter (.filter (.binary .eq (.access ⟨none, ["A".toList]⟩) (.literal (.string "x;y".toList)))),
            .mk .apply (.apply "#a 'x;)' (b;c) %".toList),
            .mk .expand (.expand [.mk (.path ⟨none, ["B".toList]⟩)
              [.mk .format (.format "#".toList), .mk .top (.top 2)]])]]) := by
  have hjoined := @Joined.more "$filter=A eq 'x;y' ".toList _ _ .ampersand (by decide)
    (@Joined.more (SystemOption.apply.name ++ '=' :: "#a 'x;)' (b;c) %".toList) _ _ .semicolon (by decide)
      (.last " $expand=B($format=#;$top=2)".toList))
  have hbefore : IsWritten 1 .expand [] "$filter=A eq 'x;y' ".toList
      (.mk .filter (.filter (.binary .eq (.access ⟨none, ["A".toList]⟩)
        (.literal (.string "x;y".toList))))) :=
    ⟨by decide, by decide +kernel⟩
  have hafter : IsWritten 1 .expand [] " $expand=B($format=#;$top=2)".toList
      (.mk .expand (.expand [.mk (.path ⟨none, ["B".toList]⟩)
        [.mk .format (.format "#".toList), .mk .top (.top 2)]])) :=
    ⟨by decide, by decide +kernel⟩
  have htarget : (ExpandTarget.path ⟨none, ["Orders".toList]⟩).WellFormed := ⟨rfl, by decide, by decide⟩
  have htext : (ExpandTarget.path ⟨none, ["Orders".toList]⟩).render ++ parenthesized
      ("$filter=A eq 'x;y' ".toList ++ Symbol.ampersand.char ::
        (SystemOption.apply.name ++ '=' :: "#a 'x;)' (b;c) %".toList ++ Symbol.semicolon.char ::
          " $expand=B($format=#;$top=2)".toList)) =
      "Orders($filter=A eq 'x;y' &$apply=#a 'x;)' (b;c) %; $expand=B($format=#;$top=2))".toList := by
    decide
  obtain ⟨-, -, hwhole⟩ := @Joined.reads_kept "#a 'x;)' (b;c) %".toList .expand 1 [] .apply
    (.apply "#a 'x;)' (b;c) %".toList) _ _ _ _ _ (by simp [OptionValue.kept]) rfl (by decide)
    (by decide) (by decide) (.cons hbefore .nil) (.cons hafter .nil) (by decide) hjoined
  have hread := hwhole rfl _ htarget
  rw [htext] at hread
  exact ⟨by decide, hread⟩

end ODataRequest
