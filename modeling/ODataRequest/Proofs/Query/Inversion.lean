import ODataRequest.Proofs.Query.Readers

/-! What a reader of the grammar has read when it gives a value. Every reader is turned round once:
the text that it leaves stands after the tokens and the parts named here, and the value is built from
those parts. The readers that loop come with an induction over what they read. -/

namespace ODataRequest

open Text Reader

namespace Grammar

variable {inner : GoalReader} {scopes : Scopes} {text start rest : Text}

/-! ### Operators between operands -/

theorem operator?_eq_some {operators : List BinaryOperator} {op : BinaryOperator}
    (h : operator? operators text = .ok (some (op, rest))) :
    op ∈ operators ∧ ∃ start, Lexeme.next? text = .ok (some ⟨.name op.keyword, start, rest⟩) := by
  obtain ⟨next, hnext, h⟩ := bind_eq_ok.mp h
  split at h
  · obtain ⟨found, hfound, heq⟩ := Option.map_eq_some_iff.mp (Except.ok.inj h)
    cases heq
    have hkeyword := List.find?_some hfound
    rw [decide_eq_true_eq] at hkeyword
    exact ⟨List.mem_of_find?_eq_some hfound, _, hkeyword ▸ hnext⟩
  · cases h

section Operators

variable {operators : List BinaryOperator} {operand : Reader Expression}
  {motive : Text → Expression → Prop}
  (hbinary : ∀ {op : BinaryOperator} {left right : Expression}
    {after start afterOp afterRight : Text}, motive after left → op ∈ operators →
      Lexeme.next? after = .ok (some ⟨.name op.keyword, start, afterOp⟩) →
      operand afterOp = .ok (right, afterRight) → motive afterRight (.binary op left right))

include hbinary

theorem moreOperands_induction {fuel : Nat} {left value : Expression} (hleft : motive text left)
    (h : moreOperands operators operand fuel left text = .ok (value, rest)) : motive rest value := by
  induction fuel generalizing left text with
  | zero =>
      cases h
      exact hleft
  | succ fuel ih =>
      obtain ⟨found, hfound, h⟩ := bind_eq_ok.mp h
      split at h
      · cases h
        exact hleft
      · obtain ⟨⟨right, afterRight⟩, hright, h⟩ := bind_eq_ok.mp h
        obtain ⟨hmem, start, hnext⟩ := operator?_eq_some hfound
        exact ih (hbinary hleft hmem hnext hright) h

/-- Operands with operators of one strength between them are a first operand, to which operators and
further operands are added one after the other. -/
theorem leftAssociated_induction
    (hoperand : ∀ {left : Expression} {after : Text}, operand text = .ok (left, after) →
      motive after left)
    {value : Expression} (h : leftAssociated operators operand text = .ok (value, rest)) :
    motive rest value := by
  obtain ⟨⟨left, after⟩, hleft, h⟩ := bind_eq_ok.mp h
  exact moreOperands_induction hbinary (hoperand hleft) h

end Operators

/-! ### Paths -/

theorem counted_cases {collection : PropertyAccess} {value : Expression}
    (h : counted inner scopes collection text = .ok (value, rest)) :
    (value = .count collection ∧ rest = text) ∨
    ∃ options afterOpen afterOptions, symbol? .openParen text = .ok (some afterOpen) ∧
      inner (.options .count) (.subquery :: scopes) afterOpen = .ok (options, afterOptions) ∧
      symbol? .closeParen afterOptions = .ok (some rest) ∧ value = .subquery collection options := by
  obtain ⟨found, hfound, h⟩ := bind_eq_ok.mp h
  split at h
  · cases h
    exact Or.inl ⟨rfl, rfl⟩
  · obtain ⟨⟨options, afterOptions⟩, hoptions, h⟩ := bind_eq_ok.mp h
    obtain ⟨afterClose, hclose, h⟩ := bind_eq_ok.mp h
    cases h
    exact Or.inr ⟨options, _, afterOptions, hfound, hoptions, symbol?_of_symbol hclose, rfl⟩

theorem lambda_cases {kind : LambdaKind} {collection : PropertyAccess} {value : Expression}
    (h : lambda inner scopes kind collection text = .ok (value, rest)) :
    (value = .lambda .any collection none none ∧ symbol? .closeParen text = .ok (some rest)) ∨
    ∃ binder start afterName afterColon body afterBody,
      Lexeme.next? text = .ok (some ⟨.name binder, start, afterName⟩) ∧
      isIdentifier binder = true ∧ symbol? .colon afterName = .ok (some afterColon) ∧
      inner .expression (.lambda binder :: scopes) afterColon = .ok (body, afterBody) ∧
      symbol? .closeParen afterBody = .ok (some rest) ∧
      value = .lambda kind collection (some binder) (some body) := by
  obtain ⟨found, hfound, h⟩ := bind_eq_ok.mp h
  split at h
  · cases h
    rw [emptyLambda?] at hfound
    by_cases hkind : kind = .any
    · rw [if_pos hkind] at hfound
      rw [hkind]
      exact Or.inl ⟨rfl, hfound⟩
    · rw [if_neg hkind] at hfound
      cases hfound
  · obtain ⟨⟨binder, start, afterName⟩, hname, h⟩ := bind_eq_ok.mp h
    dsimp only at h
    split at h
    · cases h
    rename_i hidentifier
    obtain ⟨afterColon, hcolon, h⟩ := bind_eq_ok.mp h
    obtain ⟨⟨body, afterBody⟩, hbody, h⟩ := bind_eq_ok.mp h
    obtain ⟨afterClose, hclose, h⟩ := bind_eq_ok.mp h
    cases h
    exact Or.inr ⟨binder, start, afterName, afterColon, body, afterBody, next?_of_name hname,
      by simpa using hidentifier, symbol?_of_symbol hcolon, hbody, symbol?_of_symbol hclose, rfl⟩

theorem lambdaStart?_eq_some {word : Text} {kind : LambdaKind}
    (h : lambdaStart? word text = .ok (some (kind, rest))) :
    symbol? .openParen text = .ok (some rest) := by
  rw [lambdaStart?] at h
  split at h
  · cases h
  · obtain ⟨found, hfound, h⟩ := bind_eq_ok.mp h
    obtain ⟨after, hafter, heq⟩ := Option.map_eq_some_iff.mp (Except.ok.inj h)
    cases heq
    rw [hafter] at hfound
    exact hfound

/-- The ways in which a path ends: after its last member, or there with a count segment or a
lambda. -/
inductive EndsPath (inner : GoalReader) (scopes : Scopes) (qualifier : Option Text)
    (path : List Text) (text : Text) : Expression → Text → Prop where
  | stop : EndsPath inner scopes qualifier path text (endPath scopes qualifier path) text
  | count {after rest : Text} {value : Expression} (hsegment : Segment text countSegment after)
      (h : counted inner scopes (scopes.resolve qualifier path) after = .ok (value, rest)) :
      EndsPath inner scopes qualifier path text value rest
  | lambda {kind : LambdaKind} {word afterWord after rest : Text} {value : Expression}
      (hsegment : Segment text word afterWord)
      (hopen : symbol? .openParen afterWord = .ok (some after))
      (h : Grammar.lambda inner scopes kind (scopes.resolve qualifier path) after =
        .ok (value, rest)) :
      EndsPath inner scopes qualifier path text value rest

section Paths

variable {qualifier : Option Text} {fuel : Nat} {path : List Text} {value : Expression}

/-- A path ends, or one more member follows. -/
theorem morePath_cases
    (h : morePath inner scopes qualifier fuel path text = .ok (value, rest)) :
    EndsPath inner scopes qualifier path text value rest ∨
    ∃ word after, Segment text word after ∧ isMember word = true ∧
      ((value = endPath scopes qualifier (path ++ [word]) ∧ rest = after) ∨
        ∃ fuel', fuel = fuel' + 1 ∧
          morePath inner scopes qualifier fuel' (path ++ [word]) after = .ok (value, rest)) := by
  rw [morePath.eq_def] at h
  obtain ⟨slash, hslash, h⟩ := bind_eq_ok.mp h
  split at h
  · cases h
    exact Or.inl .stop
  obtain ⟨next, hnext, h⟩ := bind_eq_ok.mp h
  split at h
  · rename_i word start afterWord
    have hsegment : Segment text word afterWord := ⟨_, start, hslash, hnext⟩
    split at h
    · rename_i hcount
      rw [hcount] at hsegment
      exact Or.inl (.count hsegment h)
    obtain ⟨found, hlambda, h⟩ := bind_eq_ok.mp h
    split at h
    · exact Or.inl (.lambda hsegment (lambdaStart?_eq_some hlambda) h)
    obtain ⟨_, hcheck, h⟩ := bind_eq_ok.mp h
    have hmember := isMember_of_checkMember hcheck (isName_of_next? hnext)
    refine Or.inr ⟨word, afterWord, hsegment, hmember, ?_⟩
    split at h
    · cases h
      exact Or.inl ⟨rfl, rfl⟩
    · exact Or.inr ⟨_, rfl, h⟩
  · exact (eq_error_of_unexpected h).elim

/-- A path goes on member by member until it ends. -/
theorem morePath_induction {motive : List Text → Text → Prop}
    (hmember : ∀ {path : List Text} {text word after : Text}, motive path text →
      Segment text word after → isMember word = true → motive (path ++ [word]) after)
    (hpath : motive path text)
    (h : morePath inner scopes qualifier fuel path text = .ok (value, rest)) :
    ∃ path' text', motive path' text' ∧
      EndsPath inner scopes qualifier path' text' value rest := by
  induction fuel generalizing path text with
  | zero =>
      rcases morePath_cases h with hends |
        ⟨word, after, hsegment, hword, ⟨rfl, rfl⟩ | ⟨_, hfuel, -⟩⟩
      · exact ⟨path, text, hpath, hends⟩
      · exact ⟨_, _, hmember hpath hsegment hword, .stop⟩
      · cases hfuel
  | succ fuel ih =>
      rcases morePath_cases h with hends |
        ⟨word, after, hsegment, hword, ⟨rfl, rfl⟩ | ⟨_, hfuel, h⟩⟩
      · exact ⟨path, text, hpath, hends⟩
      · exact ⟨_, _, hmember hpath hsegment hword, .stop⟩
      · cases hfuel
        exact ih (hmember hpath hsegment hword) h

/-- A path starts from a range variable that is known, or from a member that is none. -/
theorem pathExpression_cases {head : Text}
    (h : pathExpression inner scopes head start text = .ok (value, rest)) :
    ((head = implicitVariable || scopes.binds head) = true ∧
      morePath inner scopes (some head) text.length [] text = .ok (value, rest)) ∨
    (scopes.binds head = false ∧ checkMember head start = .ok () ∧
      morePath inner scopes none text.length [head] text = .ok (value, rest)) := by
  rw [pathExpression] at h
  split at h
  · rename_i hvariable
    exact Or.inl ⟨hvariable, h⟩
  · rename_i hvariable
    obtain ⟨_, hcheck, h⟩ := bind_eq_ok.mp h
    rw [Bool.or_eq_true, not_or] at hvariable
    exact Or.inr ⟨by simpa using hvariable.2, hcheck, h⟩

end Paths

/-! ### Operands -/

theorem call_cases {function : Text} {value : Expression}
    (h : call inner scopes function start text = .ok (value, rest)) :
    ∃ arguments afterArguments, function.head? ≠ some '$' ∧
      inner .arguments scopes text = .ok (arguments, afterArguments) ∧
      symbol? .closeParen afterArguments = .ok (some rest) ∧ value = .call function arguments := by
  rw [call] at h
  split at h
  · cases h
  rename_i hprotocol
  obtain ⟨⟨arguments, afterArguments⟩, harguments, h⟩ := bind_eq_ok.mp h
  obtain ⟨afterClose, hclose, h⟩ := bind_eq_ok.mp h
  cases h
  exact ⟨arguments, afterArguments, hprotocol, harguments, symbol?_of_symbol hclose, rfl⟩

/-- The ways in which a primary is read. -/
inductive Primary (inner : GoalReader) (scopes : Scopes) (text : Text) :
    Expression → Text → Prop where
  | literal {value : Literal} {start rest : Text}
      (hnext : Lexeme.next? text = .ok (some ⟨.literal value, start, rest⟩)) :
      Primary inner scopes text (.literal value) rest
  | group {afterOpen afterExpression rest : Text} {expression : Expression}
      (hopen : symbol? .openParen text = .ok (some afterOpen))
      (h : inner .expression scopes afterOpen = .ok (expression, afterExpression))
      (hclose : symbol? .closeParen afterExpression = .ok (some rest)) :
      Primary inner scopes text expression rest
  | call {name start afterName afterOpen rest : Text} {value : Expression}
      (hnext : Lexeme.next? text = .ok (some ⟨.name name, start, afterName⟩))
      (halias : name.head? ≠ some '@') (hopen : symbol? .openParen afterName = .ok (some afterOpen))
      (h : Grammar.call inner scopes name start afterOpen = .ok (value, rest)) :
      Primary inner scopes text value rest
  | path {name start afterName rest : Text} {value : Expression}
      (hnext : Lexeme.next? text = .ok (some ⟨.name name, start, afterName⟩))
      (halias : name.head? ≠ some '@')
      (h : pathExpression inner scopes name start afterName = .ok (value, rest)) :
      Primary inner scopes text value rest

theorem primary_cases {value : Expression} (h : primary inner scopes text = .ok (value, rest)) :
    Primary inner scopes text value rest := by
  obtain ⟨next, hnext, h⟩ := bind_eq_ok.mp h
  split at h
  · cases h
    exact .literal hnext
  · rename_i afterOpen
    obtain ⟨⟨expression, afterExpression⟩, hexpression, h⟩ := bind_eq_ok.mp h
    obtain ⟨afterClose, hclose, h⟩ := bind_eq_ok.mp h
    cases h
    have hopen : symbol? .openParen text = .ok (some afterOpen) := by
      rw [symbol?, hnext]
      rfl
    exact .group hopen hexpression (symbol?_of_symbol hclose)
  · split at h
    · cases h
    rename_i halias
    obtain ⟨found, hfound, h⟩ := bind_eq_ok.mp h
    split at h
    · exact .call hnext halias hfound h
    · exact .path hnext halias h
  · exact (eq_error_of_unexpected h).elim

/-- An operand is `not` or a minus sign with an operand after it, or a primary. -/
theorem operand_cases {value : Expression} (h : operand inner scopes text = .ok (value, rest)) :
    (∃ inside after, word? negation text = .ok (some after) ∧
      inner .operand scopes after = .ok (inside, rest) ∧ value = .unary .not inside) ∨
    (∃ inside after, symbol? .minus text = .ok (some after) ∧
      inner .operand scopes after = .ok (inside, rest) ∧ value = .unary .negate inside) ∨
    (word? negation text = .ok none ∧ Primary inner scopes text value rest) := by
  obtain ⟨negated, hnegated, h⟩ := bind_eq_ok.mp h
  split at h
  · obtain ⟨⟨inside, afterOperand⟩, hoperand, h⟩ := bind_eq_ok.mp h
    cases h
    exact Or.inl ⟨inside, _, hnegated, hoperand, rfl⟩
  · obtain ⟨minus, hminus, h⟩ := bind_eq_ok.mp h
    split at h
    · obtain ⟨_, -, h⟩ := bind_eq_ok.mp h
      obtain ⟨⟨inside, afterOperand⟩, hoperand, h⟩ := bind_eq_ok.mp h
      cases h
      exact Or.inr (Or.inl ⟨inside, _, hminus, hoperand, rfl⟩)
    · exact Or.inr (Or.inr ⟨hnegated, primary_cases h⟩)

theorem arguments_cases {values : List Expression}
    (h : arguments inner scopes text = .ok (values, rest)) :
    (values = [] ∧ rest = text) ∨ commaList (expression inner scopes) text = .ok (values, rest) := by
  obtain ⟨close, hclose, h⟩ := bind_eq_ok.mp h
  split at h
  · cases h
    exact Or.inl ⟨rfl, rfl⟩
  · exact Or.inr h

/-! ### Values of options -/

theorem sortDirection_cases {direction : SortDirection}
    (h : sortDirection text = .ok (direction, rest)) :
    (∃ word, word? word text = .ok (some rest)) ∨ rest = text := by
  obtain ⟨descending, hdescending, h⟩ := bind_eq_ok.mp h
  split at h
  · cases h
    exact Or.inl ⟨_, hdescending⟩
  · obtain ⟨ascending, hascending, h⟩ := bind_eq_ok.mp h
    split at h
    · cases h
      exact Or.inl ⟨_, hascending⟩
    · cases h
      exact Or.inr rfl

theorem orderByItem_cases {item : OrderByItem}
    (h : orderByItem inner scopes text = .ok (item, rest)) :
    ∃ key direction after, expression inner scopes text = .ok (key, after) ∧
      sortDirection after = .ok (direction, rest) ∧ item = .mk key direction := by
  obtain ⟨⟨key, afterKey⟩, hkey, h⟩ := bind_eq_ok.mp h
  obtain ⟨⟨direction, afterDirection⟩, hdirection, h⟩ := bind_eq_ok.mp h
  cases h
  exact ⟨key, direction, afterKey, hkey, hdirection, rfl⟩

theorem selectItem_cases {item : SelectItem} (h : selectItem text = .ok (item, rest)) :
    (item = .all ∧ symbol? .star text = .ok (some rest)) ∨
    ∃ route after, memberPath text = .ok (route, after) ∧
      ((item = .count route ∧ Segment after countSegment rest) ∨
        (item = .path route ∧ rest = after)) := by
  obtain ⟨star, hstar, h⟩ := bind_eq_ok.mp h
  split at h
  · cases h
    exact Or.inl ⟨rfl, hstar⟩
  · obtain ⟨⟨route, afterPath⟩, hpath, h⟩ := bind_eq_ok.mp h
    refine Or.inr ⟨route, afterPath, hpath, ?_⟩
    obtain ⟨count, hcount, h⟩ := bind_eq_ok.mp h
    split at h
    · cases h
      exact Or.inl ⟨rfl, segment_of_controlSegment? hcount⟩
    · cases h
      exact Or.inr ⟨rfl, rfl⟩

/-- The ways in which a target is read: a star or a path, alone or with a control segment. -/
theorem expandTarget_cases {target : ExpandTarget} (h : expandTarget text = .ok (target, rest)) :
    ∃ after, (rest = after ∨ ∃ word, Segment after word rest) ∧
      ((symbol? .star text = .ok (some after) ∧ (target = .all ∨ target = .allRefs)) ∨
        ∃ route, memberPath text = .ok (route, after) ∧
          (target = .path route ∨ target = .count route ∨ target = .ref route)) := by
  obtain ⟨star, hstar, h⟩ := bind_eq_ok.mp h
  split at h
  · obtain ⟨ref, href, h⟩ := bind_eq_ok.mp h
    split at h
    · cases h
      exact ⟨_, Or.inr ⟨_, segment_of_controlSegment? href⟩, Or.inl ⟨hstar, Or.inr rfl⟩⟩
    · cases h
      exact ⟨_, Or.inl rfl, Or.inl ⟨hstar, Or.inl rfl⟩⟩
  · obtain ⟨⟨route, afterPath⟩, hpath, h⟩ := bind_eq_ok.mp h
    obtain ⟨count, hcount, h⟩ := bind_eq_ok.mp h
    split at h
    · cases h
      exact ⟨_, Or.inr ⟨_, segment_of_controlSegment? hcount⟩,
        Or.inr ⟨route, hpath, Or.inr (Or.inl rfl)⟩⟩
    · obtain ⟨ref, href, h⟩ := bind_eq_ok.mp h
      split at h
      · cases h
        exact ⟨_, Or.inr ⟨_, segment_of_controlSegment? href⟩,
          Or.inr ⟨route, hpath, Or.inr (Or.inr rfl)⟩⟩
      · cases h
        exact ⟨_, Or.inl rfl, Or.inr ⟨route, hpath, Or.inl rfl⟩⟩

theorem expandItem_cases {item : ExpandItem}
    (h : expandItem inner scopes text = .ok (item, rest)) :
    ∃ target after, expandTarget text = .ok (target, after) ∧
      ((item = .mk target [] ∧ rest = after) ∨
        ∃ options afterOpen afterOptions, symbol? .openParen after = .ok (some afterOpen) ∧
          inner (.options .expand) (.expand :: scopes) afterOpen = .ok (options, afterOptions) ∧
          symbol? .closeParen afterOptions = .ok (some rest) ∧ item = .mk target options) := by
  obtain ⟨⟨target, afterTarget⟩, htarget, h⟩ := bind_eq_ok.mp h
  refine ⟨target, afterTarget, htarget, ?_⟩
  obtain ⟨found, hfound, h⟩ := bind_eq_ok.mp h
  split at h
  · cases h
    exact Or.inl ⟨rfl, rfl⟩
  · obtain ⟨⟨options, afterOptions⟩, hoptions, h⟩ := bind_eq_ok.mp h
    obtain ⟨afterClose, hclose, h⟩ := bind_eq_ok.mp h
    cases h
    exact Or.inr ⟨options, _, afterOptions, hfound, hoptions, symbol?_of_symbol hclose, rfl⟩

/-- Among other options a value ends before the next separator. -/
theorem plainValue_nested (hscopes : scopes ≠ []) (text : Text) :
    plainValue (!scopes.isEmpty) text = spanVerbatim 0 false text :=
  if_pos (by simpa using hscopes)

theorem verbatim_cases {isNested : Bool} {value : Text}
    (h : verbatim isNested text = .ok (value, rest)) :
    value = (plainValue isNested text).1.trim ∧ value ≠ [] ∧ rest = (plainValue isNested text).2 := by
  rw [verbatim] at h
  dsimp only at h
  split at h
  · exact (eq_error_of_unexpected h).elim
  · rename_i hempty
    cases h
    exact ⟨rfl, by simpa using hempty, rfl⟩

theorem plainLiteral_cases {α : Type} {isNested : Bool} {parse : Text → Except InvalidLiteral α}
    {value : α} (h : plainLiteral isNested parse text = .ok (value, rest)) :
    parse (plainValue isNested text).1 = .ok value ∧ rest = (plainValue isNested text).2 := by
  rw [plainLiteral] at h
  dsimp only at h
  split at h
  · rename_i hvalue
    cases h
    exact ⟨hvalue, rfl⟩
  · cases h

/-- The value of an option that is kept as it is ends before the next separator. -/
theorem rest_of_plain {option : SystemOption} {value : OptionValue}
    (hplain : option.isExpression = false) (hscopes : scopes ≠ [])
    (h : optionValue inner scopes option text = .ok (value, rest)) :
    rest = (spanVerbatim 0 false text).2 := by
  rw [← plainValue_nested hscopes]
  cases option with
  | filter | orderBy | select | expand => cases hplain
  | count | top | skip | levels =>
      obtain ⟨⟨found, after⟩, hfound, heq⟩ := map_eq_ok h
      cases heq
      exact (plainLiteral_cases hfound).2
  | search | apply | format =>
      obtain ⟨⟨found, after⟩, hfound, heq⟩ := map_eq_ok h
      cases heq
      exact (verbatim_cases hfound).2.2

/-! ### Lists of options -/

theorem listedOption_cases {kind : OptionListKind} {seen : List SystemOption} {name : Text}
    {option : SystemOption} (h : listedOption kind seen name start = .ok option) :
    name = option.name ∧ kind.allows option = true ∧ option ∉ seen := by
  rw [listedOption] at h
  split at h
  · rename_i found hfound
    split at h
    · cases h
    rename_i hallows
    split at h
    · cases h
    rename_i hseen
    cases h
    exact ⟨SystemOption.ofName?_eq_some_iff.mp hfound, by simpa using hallows, hseen⟩
  · cases h

theorem separator?_cases (h : separator? text = .ok (some rest)) :
    symbol? .semicolon text = .ok (some rest) ∨ symbol? .ampersand text = .ok (some rest) := by
  obtain ⟨semicolon, hsemicolon, h⟩ := bind_eq_ok.mp h
  split at h
  · cases h
    exact Or.inl hsemicolon
  · exact Or.inr h

/-- The name of an option and an equals sign come next. -/
def Assignment (text : Text) (option : SystemOption) (rest : Text) : Prop :=
  ∃ start after, Lexeme.next? text = .ok (some ⟨.name option.name, start, after⟩) ∧
    symbol? .equals after = .ok (some rest)

theorem Assignment.unique {option : SystemOption} {rest' : Text} (h : Assignment text option rest)
    (h' : Assignment text option rest') : rest = rest' := by
  obtain ⟨start, after, hnext, hequals⟩ := h
  obtain ⟨start', after', hnext', hequals'⟩ := h'
  rw [hnext] at hnext'
  cases hnext'
  rw [hequals] at hequals'
  exact Option.some.inj (Except.ok.inj hequals')

section OptionLists

variable {kind : OptionListKind} {fuel : Nat} {seen : List SystemOption}
  {options : List ParsedOption}

/-- A list of options ends after its first option or goes on after a separator. -/
theorem optionList_cases
    (h : optionList inner scopes kind fuel seen text = .ok (options, rest)) :
    ∃ option value afterEquals afterValue, kind.allows option = true ∧ option ∉ seen ∧
      Assignment text option afterEquals ∧
      optionValue inner scopes option afterEquals = .ok (value, afterValue) ∧
      ((options = [.mk option value] ∧ rest = afterValue) ∨
        ∃ fuel' others after, fuel = fuel' + 1 ∧ options = .mk option value :: others ∧
          separator? afterValue = .ok (some after) ∧
          optionList inner scopes kind fuel' (option :: seen) after = .ok (others, rest)) := by
  rw [optionList.eq_def] at h
  obtain ⟨⟨word, start, afterName⟩, hname, h⟩ := bind_eq_ok.mp h
  obtain ⟨option, hoption, h⟩ := bind_eq_ok.mp h
  obtain ⟨afterEquals, hequals, h⟩ := bind_eq_ok.mp h
  obtain ⟨⟨value, afterValue⟩, hvalue, h⟩ := bind_eq_ok.mp h
  obtain ⟨hword, hallows, hseen⟩ := listedOption_cases hoption
  have hassignment : Assignment text option afterEquals :=
    ⟨start, afterName, hword ▸ next?_of_name hname, symbol?_of_symbol hequals⟩
  refine ⟨option, value, afterEquals, afterValue, hallows, hseen, hassignment, hvalue, ?_⟩
  obtain ⟨found, hfound, h⟩ := bind_eq_ok.mp h
  split at h
  · cases h
    exact Or.inl ⟨rfl, rfl⟩
  · split at h
    · cases h
      exact Or.inl ⟨rfl, rfl⟩
    · obtain ⟨⟨others, afterAll⟩, hothers, h⟩ := bind_eq_ok.mp h
      cases h
      exact Or.inr ⟨_, others, _, rfl, rfl, hfound, hothers⟩

/-- A list of options is an option, after which a separator and a list of other options may follow. -/
theorem optionList_induction {motive : List SystemOption → Text → List ParsedOption → Prop}
    (hlast : ∀ {seen : List SystemOption} {text afterEquals : Text} {option : SystemOption}
      {value : OptionValue}, kind.allows option = true → option ∉ seen →
      Assignment text option afterEquals →
      optionValue inner scopes option afterEquals = .ok (value, rest) →
      motive seen text [.mk option value])
    (hmore : ∀ {seen : List SystemOption} {text afterEquals afterValue after : Text}
      {option : SystemOption} {value : OptionValue} {others : List ParsedOption},
      kind.allows option = true → option ∉ seen → Assignment text option afterEquals →
      optionValue inner scopes option afterEquals = .ok (value, afterValue) →
      separator? afterValue = .ok (some after) → motive (option :: seen) after others →
      motive seen text (.mk option value :: others))
    (h : optionList inner scopes kind fuel seen text = .ok (options, rest)) :
    motive seen text options := by
  induction fuel generalizing seen text options with
  | zero =>
      obtain ⟨option, value, afterEquals, afterValue, hallows, hseen, hassignment, hvalue,
        ⟨rfl, rfl⟩ | ⟨_, _, _, hfuel, -⟩⟩ := optionList_cases h
      · exact hlast hallows hseen hassignment hvalue
      · cases hfuel
  | succ fuel ih =>
      obtain ⟨option, value, afterEquals, afterValue, hallows, hseen, hassignment, hvalue,
        ⟨rfl, rfl⟩ | ⟨_, others, after, hfuel, rfl, hafter, hothers⟩⟩ := optionList_cases h
      · exact hlast hallows hseen hassignment hvalue
      · cases hfuel
        exact hmore hallows hseen hassignment hvalue hafter (ih hothers)

end OptionLists

end Grammar

end ODataRequest
