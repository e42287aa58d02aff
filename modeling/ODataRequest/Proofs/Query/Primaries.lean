import ODataRequest.Proofs.Query.Operands
import ODataRequest.Proofs.Query.Reread
import ODataRequest.Proofs.Query.Resolution

/-! Literals, groups, paths, calls and signs that are written out, over any reader of what nests in
them. Each lemma takes the outcome that the reader has on the nested texts and gives the outcome on
the whole text. -/

namespace ODataRequest

open Text Nesting Reader

theorem joinTexts_cons (separator : Char) (first : Text) (others : List Text) :
    joinTexts separator (first :: others) = first ++ others.flatMap (separator :: ·) := by
  induction others generalizing first with
  | nil => simp [joinTexts, List.intercalate]
  | cons second others ih =>
      have hsecond := ih second
      rw [joinTexts, List.intercalate] at hsecond ⊢
      rw [List.intersperse_cons_cons, List.flatten_cons, List.flatten_cons, hsecond,
        List.flatMap_cons]
      rfl

/-- What comes after separators is at least as long as there are separators. -/
theorem length_le_separated {α : Type} (separator : Char) (render : α → Text) (items : List α) :
    items.length ≤ (items.flatMap fun item => separator :: render item).length := by
  induction items with
  | nil => exact Nat.le_refl _
  | cons item items ih =>
      rw [List.flatMap_cons, List.length_append]
      simp only [List.length_cons]
      omega

/-- The text of the members after the first part of a path. -/
def memberText (members : List Text) : Text :=
  members.flatMap ('/' :: ·)

/-- A text before which a path segment ends, and with it a possible call. -/
structure EndsSegment (tail : Text) : Prop where
  breaks : Lexeme.breaks tail = true
  notOpen : symbol? .openParen tail = .ok none

namespace EndsSegment

theorem of_stops {strength : Nat} {tail : Text} (h : Stops strength tail) : EndsSegment tail :=
  ⟨h.breaks, h.symbol? (Or.inr rfl)⟩

theorem of_slash (rest : Text) : EndsSegment ('/' :: rest) :=
  ⟨rfl, symbol?_of_symbol_ne (by decide) (Lexeme.next?_symbol .slash rest)⟩

theorem memberText {tail : Text} (h : EndsSegment tail) (members : List Text) :
    EndsSegment (memberText members ++ tail) := by
  cases members with
  | nil => exact h
  | cons member members => exact of_slash _

end EndsSegment

namespace Grammar

variable {inner : GoalReader} {scopes : Scopes} {text start rest tail : Text}

/-- What nests is read up to its closing parenthesis. -/
theorem reads_enclosed {α β : Type} {inside : Except Fault (α × Text)} {expected : Option α}
    {expectation : Expectation} {finish : α → β} (h : ReadsAs inside expected (')' :: rest)) :
    ReadsAs (do
      let read ← inside
      let after ← symbol .closeParen expectation read.2
      .ok (finish read.1, after)) (expected.map finish) rest := by
  refine h.bind_map ?_ ?_
  · intro value
    have hclose : symbol .closeParen expectation (')' :: rest) = .ok rest :=
      symbol_mark .closeParen _ rest
    dsimp only
    rw [hclose]
    rfl
  · exact fun value text hminus => derails_symbol hminus (by decide)

/-! ### From an operand to a primary -/

theorem operand_of_literal {value : Literal}
    (h : Lexeme.next? text = .ok (some ⟨.literal value, start, rest⟩)) :
    operand inner scopes text = .ok (.literal value, rest) := by
  rw [operand, word?_of_literal h]
  show (symbol? .minus text >>= _) = _
  rw [symbol?_of_literal h]
  show primary inner scopes text = _
  rw [primary, h]
  rfl

theorem operand_of_name {word : Text}
    (h : Lexeme.next? text = .ok (some ⟨.name word, start, rest⟩)) (hnot : word ≠ negation) :
    operand inner scopes text = primary inner scopes text := by
  rw [operand, word?_of_name_ne hnot h]
  show (symbol? .minus text >>= _) = _
  rw [symbol?_of_name h]
  rfl

theorem operand_of_open (h : Lexeme.next? text = .ok (some ⟨.symbol .openParen, start, rest⟩)) :
    operand inner scopes text = primary inner scopes text := by
  rw [operand, word?_of_symbol h]
  show (symbol? .minus text >>= _) = _
  rw [symbol?_of_symbol_ne (by decide) h]
  rfl

theorem reads_literal {value : Literal} (h : value.WellFormed) (hrest : Stops unaryPrecedence rest) :
    ReadsAs (operand inner scopes (value.render ++ rest)) (some (.literal value)) rest :=
  operand_of_literal (Lexeme.next?_literal h hrest.breaks)

/-- A group in parentheses. -/
theorem reads_group {expected : Option Expression}
    (h : ReadsAs (inner .expression scopes (text ++ ')' :: rest)) expected (')' :: rest)) :
    ReadsAs (operand inner scopes (parenthesized text ++ rest)) expected rest := by
  have htext : parenthesized text ++ rest = '(' :: (text ++ ')' :: rest) := by simp [parenthesized]
  have hnext : Lexeme.next? ('(' :: (text ++ ')' :: rest)) =
      .ok (some ⟨.symbol .openParen, '(' :: (text ++ ')' :: rest), text ++ ')' :: rest⟩) :=
    Lexeme.next?_symbol .openParen _
  have hexpected : expected = expected.map id := by rw [Option.map_id, id]
  rw [htext, operand_of_open hnext, primary, hnext, hexpected]
  exact reads_enclosed h

/-! ### Paths -/

theorem lambdaStart?_of_endsSegment (h : EndsSegment tail) (word : Text) :
    lambdaStart? word tail = .ok none := by
  rw [lambdaStart?]
  split
  · rfl
  · rw [h.notOpen]
    rfl

theorem ne_control_of_isMember {word control : Text} (h : isMember word = true)
    (hcontrol : control.head? = some '$') : word ≠ control := by
  rintro rfl
  simp [isMember, hcontrol] at h

/-- A path is read member by member up to where its last one ends. -/
theorem morePath_members {qualifier : Option Text} {members path : List Text} {fuel : Nat}
    (hmembers : members.all isMember = true) (htail : EndsSegment tail)
    (hfuel : members.length ≤ fuel) :
    morePath inner scopes qualifier fuel path (memberText members ++ tail) =
      morePath inner scopes qualifier (fuel - members.length) (path ++ members) tail := by
  induction members generalizing fuel path with
  | nil => rw [List.append_nil, List.length_nil, Nat.sub_zero]; rfl
  | cons member members ih =>
      rw [List.all_cons, Bool.and_eq_true] at hmembers
      obtain ⟨fuel, rfl⟩ : ∃ below, fuel = below + 1 :=
        ⟨fuel - 1, by rw [List.length_cons] at hfuel; omega⟩
      have hends : EndsSegment (memberText members ++ tail) := htail.memberText members
      have htext : memberText (member :: members) ++ tail =
          '/' :: (member ++ (memberText members ++ tail)) := by
        simp [memberText]
      have hslash : symbol? .slash ('/' :: (member ++ (memberText members ++ tail))) =
          .ok (some (member ++ (memberText members ++ tail))) :=
        symbol?_mark .slash _
      have hnext := Lexeme.next?_name (isName_of_isMember hmembers.1) hends.breaks
      have hcount : member ≠ countSegment := ne_control_of_isMember hmembers.1 rfl
      rw [htext, morePath.eq_def]
      dsimp only
      rw [hslash]
      show (Lexeme.next? (member ++ (memberText members ++ tail)) >>= _) = _
      rw [hnext]
      show (if member = countSegment then _ else _) = _
      rw [if_neg hcount, lambdaStart?_of_endsSegment hends]
      show (checkMember member _ >>= _) = _
      rw [checkMember_of_isMember hmembers.1]
      show morePath inner scopes qualifier fuel (path ++ [member]) _ = _
      rw [ih hmembers.2 (by rw [List.length_cons] at hfuel; omega), List.append_assoc,
        List.length_cons, Nat.add_sub_add_right]
      rfl

theorem morePath_end {strength : Nat} {qualifier : Option Text} {path : List Text} {fuel : Nat}
    (h : Stops strength rest) :
    morePath inner scopes qualifier fuel path rest = .ok (endPath scopes qualifier path, rest) := by
  rw [morePath.eq_def]
  dsimp only
  rw [h.symbol? (Or.inl rfl)]
  rfl

theorem morePath_count {qualifier : Option Text} {path : List Text} {fuel : Nat}
    (h : Lexeme.breaks rest = true) :
    morePath inner scopes qualifier fuel path ('/' :: countSegment ++ rest) =
      counted inner scopes (scopes.resolve qualifier path) rest := by
  have hslash : symbol? .slash ('/' :: (countSegment ++ rest)) = .ok (some (countSegment ++ rest)) :=
    symbol?_mark .slash _
  have hname : Lexeme.isName countSegment = true := by decide
  have hnext : Lexeme.next? (countSegment ++ rest) = _ :=
    Lexeme.next?_name hname h
  rw [List.cons_append, morePath.eq_def]
  dsimp only
  rw [hslash]
  show (Lexeme.next? (countSegment ++ rest) >>= _) = _
  rw [hnext]
  rfl

theorem morePath_lambda {qualifier : Option Text} {path : List Text} {fuel : Nat}
    (kind : LambdaKind) (rest : Text) :
    morePath inner scopes qualifier fuel path ('/' :: kind.keyword ++ '(' :: rest) =
      lambda inner scopes kind (scopes.resolve qualifier path) rest := by
  have hslash : symbol? .slash ('/' :: (kind.keyword ++ '(' :: rest)) =
      .ok (some (kind.keyword ++ '(' :: rest)) :=
    symbol?_mark .slash _
  have hname : Lexeme.isName kind.keyword = true := by cases kind <;> decide
  have hnext : Lexeme.next? (kind.keyword ++ '(' :: rest) = _ :=
    Lexeme.next?_name hname rfl
  have hopen : symbol? .openParen ('(' :: rest) = .ok (some rest) :=
    symbol?_mark .openParen _
  have hstart : lambdaStart? kind.keyword ('(' :: rest) = .ok (some (kind, rest)) := by
    have hkind : lambdaKind? kind.keyword = some kind := by cases kind <;> decide
    rw [lambdaStart?, hkind, hopen]
    rfl
  have hcount : kind.keyword ≠ countSegment := by cases kind <;> decide
  rw [List.cons_append, morePath.eq_def]
  dsimp only
  rw [hslash]
  show (Lexeme.next? (kind.keyword ++ '(' :: rest) >>= _) = _
  rw [hnext]
  show (if kind.keyword = countSegment then _ else _) = _
  rw [if_neg hcount, hstart]
  rfl

/-- A path goes on over all members that are written out. -/
theorem morePath_memberText (inner : GoalReader) (scopes : Scopes) (qualifier : Option Text)
    {members : List Text} (path : List Text) (hmembers : members.all isMember = true)
    (htail : EndsSegment tail) :
    ∃ fuel, morePath inner scopes qualifier (memberText members ++ tail).length path
      (memberText members ++ tail) = morePath inner scopes qualifier fuel (path ++ members) tail := by
  refine ⟨_, morePath_members hmembers htail ?_⟩
  have : members.length ≤ (memberText members).length := length_le_separated '/' id members
  rw [List.length_append]
  omega

/-- The first part of a path and the members after it. -/
theorem render_of_begins {route : PropertyAccess}
    (h : PropertyAccess.Begins scopes route.qualifier route.path) :
    ∃ head members, route.render = head ++ memberText members ∧ Lexeme.isName head = true ∧
      head ≠ negation ∧ head.head? ≠ some '@' := by
  obtain ⟨qualifier, path⟩ := route
  cases h with
  | ranged hvariable hpath =>
      rename_i qualifier
      simp only [Scopes.isVariable, Bool.and_eq_true, bne_iff_ne, ne_eq] at hvariable
      exact ⟨qualifier, path, joinTexts_cons '/' _ _, hvariable.1.1.2, hvariable.1.2, hvariable.2⟩
  | member hhead hfree hnot hpath =>
      rename_i head members
      refine ⟨head, members, joinTexts_cons '/' _ _, isName_of_isMember hhead, hnot, ?_⟩
      simp only [isMember, Bool.and_eq_true, bne_iff_ne, ne_eq] at hhead
      exact hhead.1.2

theorem primary_of_name {head : Text}
    (hnext : Lexeme.next? text = .ok (some ⟨.name head, start, tail⟩)) (halias : head.head? ≠ some '@')
    (htail : symbol? .openParen tail = .ok none) :
    primary inner scopes text = pathExpression inner scopes head start tail := by
  rw [primary, hnext]
  show (if head.head? = some '@' then _ else _) = _
  rw [if_neg halias, htail]
  rfl

/-- The canonical text of a path is read as the path, up to where its last member ends. -/
theorem operand_of_begins (inner : GoalReader) {route : PropertyAccess}
    (h : PropertyAccess.Begins scopes route.qualifier route.path) (htail : EndsSegment tail) :
    ∃ fuel, operand inner scopes (route.render ++ tail) =
      morePath inner scopes route.qualifier fuel route.path tail := by
  obtain ⟨qualifier, path⟩ := route
  cases h with
  | ranged hvariable hpath =>
      rename_i head
      simp only [Scopes.isVariable, Bool.and_eq_true, bne_iff_ne, ne_eq] at hvariable
      obtain ⟨⟨⟨hbound, hname⟩, hnot⟩, halias⟩ := hvariable
      have hends : EndsSegment (memberText path ++ tail) := htail.memberText path
      have hnext := Lexeme.next?_name hname hends.breaks
      have hrender : (PropertyAccess.mk (some head) path).render = head ++ memberText path :=
        joinTexts_cons '/' _ _
      obtain ⟨fuel, hmore⟩ := morePath_memberText inner scopes (some head) [] hpath htail
      refine ⟨fuel, ?_⟩
      rw [hrender, List.append_assoc, operand_of_name hnext hnot,
        primary_of_name hnext halias hends.notOpen, pathExpression, if_pos hbound]
      exact hmore
  | member hhead hfree hnot hpath =>
      rename_i head members
      have hname := isName_of_isMember hhead
      have halias : head.head? ≠ some '@' := by
        simp only [isMember, Bool.and_eq_true, bne_iff_ne, ne_eq] at hhead
        exact hhead.1.2
      have hfree' : ¬(decide (head = implicitVariable) || scopes.binds head) = true := by
        rw [hfree, Bool.or_false, decide_eq_true_eq]
        exact ne_control_of_isMember hhead rfl
      have hends : EndsSegment (memberText members ++ tail) := htail.memberText members
      have hnext := Lexeme.next?_name hname hends.breaks
      have hrender : (PropertyAccess.mk none (head :: members)).render = head ++ memberText members :=
        joinTexts_cons '/' _ _
      obtain ⟨fuel, hmore⟩ := morePath_memberText inner scopes none [head] hpath htail
      refine ⟨fuel, ?_⟩
      rw [hrender, List.append_assoc, operand_of_name hnext hnot,
        primary_of_name hnext halias hends.notOpen, pathExpression, if_neg hfree',
        checkMember_of_isMember hhead]
      exact hmore

theorem endPath_of_ne_nil {route : PropertyAccess} (hpath : route.path ≠ []) :
    endPath scopes route.qualifier route.path = .access (route.resolved scopes) := by
  obtain ⟨qualifier, path⟩ := route
  cases path with
  | nil => exact absurd rfl hpath
  | cons member path => cases qualifier <;> rfl

theorem reads_access {route : PropertyAccess}
    (h : PropertyAccess.Begins scopes route.qualifier route.path) (hpath : route.path ≠ [])
    (hrest : Stops unaryPrecedence rest) :
    ReadsAs (operand inner scopes (route.render ++ rest)) (some (.access (route.resolved scopes)))
      rest := by
  obtain ⟨fuel, hoperand⟩ := operand_of_begins inner h (.of_stops hrest)
  rw [hoperand, morePath_end hrest, endPath_of_ne_nil hpath]
  rfl

theorem reads_rangeVariable {name : Text} (h : scopes.isVariable name = true)
    (hrest : Stops unaryPrecedence rest) :
    ReadsAs (operand inner scopes (name ++ rest)) (some (.rangeVariable name)) rest := by
  have hrender : (PropertyAccess.mk (some name) []).render = name := by
    simp [PropertyAccess.render, joinTexts, List.intercalate]
  obtain ⟨fuel, hoperand⟩ :=
    @operand_of_begins scopes rest inner ⟨some name, []⟩ (.ranged h rfl) (.of_stops hrest)
  rw [hrender] at hoperand
  rw [hoperand, morePath_end hrest]
  rfl

theorem reads_count {route : PropertyAccess}
    (h : PropertyAccess.Begins scopes route.qualifier route.path)
    (hrest : Stops unaryPrecedence rest) :
    ReadsAs (operand inner scopes (route.renderCount ++ rest)) (some (.count (route.resolved scopes)))
      rest := by
  obtain ⟨fuel, hoperand⟩ :=
    operand_of_begins inner h (.of_slash (countSegment ++ rest))
  rw [PropertyAccess.renderCount, List.append_assoc, List.cons_append, hoperand, ← List.cons_append,
    morePath_count hrest.breaks, counted, hrest.symbol? (Or.inr rfl)]
  rfl

/-- The number of elements that options leave. -/
theorem reads_subquery {route : PropertyAccess} {expected : Option (List ParsedOption)}
    (h : PropertyAccess.Begins scopes route.qualifier route.path)
    (hoptions : ReadsAs (inner (.options .count) (.subquery :: scopes) (text ++ ')' :: rest)) expected
      (')' :: rest)) :
    ReadsAs (operand inner scopes (route.renderCount ++ parenthesized text ++ rest))
      (expected.map (.subquery (route.resolved scopes))) rest := by
  have htext : route.renderCount ++ parenthesized text ++ rest =
      route.render ++ '/' :: (countSegment ++ '(' :: (text ++ ')' :: rest)) := by
    simp [PropertyAccess.renderCount, parenthesized]
  have hopen : symbol? .openParen ('(' :: (text ++ ')' :: rest)) = .ok (some (text ++ ')' :: rest)) :=
    symbol?_mark .openParen _
  obtain ⟨fuel, hoperand⟩ :=
    operand_of_begins inner h (.of_slash (countSegment ++ '(' :: (text ++ ')' :: rest)))
  rw [htext, hoperand, ← List.cons_append, morePath_count rfl, counted, hopen]
  exact reads_enclosed hoptions

/-! ### Lambdas and calls -/

theorem reads_emptyLambda {route : PropertyAccess}
    (h : PropertyAccess.Begins scopes route.qualifier route.path) :
    ReadsAs (operand inner scopes
      (route.render ++ '/' :: LambdaKind.any.keyword ++ parenthesized [] ++ rest))
      (some (.lambda .any (route.resolved scopes) none none)) rest := by
  have htext : route.render ++ '/' :: LambdaKind.any.keyword ++ parenthesized [] ++ rest =
      route.render ++ '/' :: (LambdaKind.any.keyword ++ '(' :: (')' :: rest)) := by
    simp [parenthesized]
  have hclose : symbol? .closeParen (')' :: rest) = .ok (some rest) :=
    symbol?_mark .closeParen rest
  obtain ⟨fuel, hoperand⟩ := operand_of_begins inner h
    (.of_slash (LambdaKind.any.keyword ++ '(' :: (')' :: rest)))
  rw [htext, hoperand, ← List.cons_append, morePath_lambda, lambda, emptyLambda?, if_pos rfl, hclose]
  rfl

/-- A predicate on a range variable. -/
theorem reads_lambda {kind : LambdaKind} {route : PropertyAccess} {binder : Text}
    {expected : Option Expression} (h : PropertyAccess.Begins scopes route.qualifier route.path)
    (hidentifier : isIdentifier binder = true) (hname : Lexeme.isName binder = true)
    (hbody : ReadsAs (inner .expression (.lambda binder :: scopes) (text ++ ')' :: rest)) expected
      (')' :: rest)) :
    ReadsAs (operand inner scopes
      (route.render ++ '/' :: kind.keyword ++ parenthesized (binder ++ ':' :: text) ++ rest))
      (expected.map fun body => .lambda kind (route.resolved scopes) (some binder) (some body))
      rest := by
  have htext : route.render ++ '/' :: kind.keyword ++ parenthesized (binder ++ ':' :: text) ++ rest =
      route.render ++ '/' :: (kind.keyword ++ '(' :: (binder ++ ':' :: (text ++ ')' :: rest))) := by
    simp [parenthesized]
  have hnext : Lexeme.next? (binder ++ ':' :: (text ++ ')' :: rest)) = _ :=
    Lexeme.next?_name hname rfl
  have hempty : emptyLambda? kind (binder ++ ':' :: (text ++ ')' :: rest)) = .ok none := by
    rw [emptyLambda?, symbol?_of_name hnext]
    exact ite_self _
  have hcolon : symbol .colon .colon (':' :: (text ++ ')' :: rest)) = .ok (text ++ ')' :: rest) :=
    symbol_mark .colon _ _
  obtain ⟨fuel, hoperand⟩ := operand_of_begins inner h
    (.of_slash (kind.keyword ++ '(' :: (binder ++ ':' :: (text ++ ')' :: rest))))
  rw [htext, hoperand, ← List.cons_append, morePath_lambda, lambda, hempty]
  show ReadsAs (name .rangeVariable (binder ++ ':' :: (text ++ ')' :: rest)) >>= _) _ _
  rw [name_of_next? hnext]
  show ReadsAs (if (!isIdentifier binder) = true then _ else _) _ _
  rw [hidentifier, Bool.not_true, if_neg Bool.false_ne_true, hcolon, ok_bind]
  exact reads_enclosed hbody

/-- A function applied to arguments. -/
theorem reads_call {function : Text} {expected : Option (List Expression)}
    (hfunction : isMember function = true) (hnot : function ≠ negation)
    (harguments : ReadsAs (inner .arguments scopes (text ++ ')' :: rest)) expected (')' :: rest)) :
    ReadsAs (operand inner scopes (function ++ parenthesized text ++ rest))
      (expected.map (.call function)) rest := by
  have htext : function ++ parenthesized text ++ rest = function ++ '(' :: (text ++ ')' :: rest) := by
    simp [parenthesized]
  have hnext : Lexeme.next? (function ++ '(' :: (text ++ ')' :: rest)) = _ :=
    Lexeme.next?_name (isName_of_isMember hfunction) rfl
  have hopen : symbol? .openParen ('(' :: (text ++ ')' :: rest)) = .ok (some (text ++ ')' :: rest)) :=
    symbol?_mark .openParen _
  simp only [isMember, Bool.and_eq_true, bne_iff_ne, ne_eq] at hfunction
  obtain ⟨⟨-, halias⟩, hprotocol⟩ := hfunction
  rw [htext, operand_of_name hnext hnot, primary, hnext]
  show ReadsAs (if function.head? = some '@' then _ else _) _ _
  rw [if_neg halias, hopen]
  show ReadsAs (call inner scopes function _ _) _ _
  rw [call, if_neg hprotocol]
  exact reads_enclosed harguments

/-! ### Signs -/

theorem isName_negation : Lexeme.isName negation = true := by
  decide

/-- A negation, with the blank after its keyword. -/
theorem reads_not {expected : Option Expression}
    (h : ReadsAs (inner .operand scopes (' ' :: (text ++ rest))) expected rest) :
    ReadsAs (operand inner scopes (UnaryOperator.not.mark ++ text ++ rest))
      (expected.map (.unary .not)) rest := by
  have htext : UnaryOperator.not.mark ++ text ++ rest = negation ++ ' ' :: (text ++ rest) := by
    simp [UnaryOperator.mark, negation]
  have hnext : Lexeme.next? (negation ++ ' ' :: (text ++ rest)) = _ :=
    Lexeme.next?_name isName_negation rfl
  rw [htext, operand, word?_of_name hnext]
  exact ReadsAs.bind_map h (fun _ => rfl) fun _ _ hminus => .of_minus hminus

theorem operand_of_minus (h : text.head?.any Char.isDigit = false) :
    operand inner scopes ('-' :: text) = (do
      checkNumericOperand text
      let read ← inner .operand scopes text
      .ok (.unary .negate read.1, read.2)) := by
  have hnext := Lexeme.next?_minus h
  have hminus : symbol? .minus ('-' :: text) = .ok (some text) := by
    rw [symbol?, hnext]
    rfl
  rw [operand, word?_of_symbol hnext]
  show (symbol? .minus ('-' :: text) >>= _) = _
  rw [hminus]
  rfl

/-- A sign before an operand that does not begin with a digit. -/
theorem reads_negate {expected : Option Expression}
    (hdigit : (text ++ rest).head?.any Char.isDigit = false)
    (hcheck : expected.isSome = true → checkNumericOperand (text ++ rest) = .ok ())
    (h : ReadsAs (inner .operand scopes (text ++ rest)) expected rest) :
    ReadsAs (operand inner scopes (UnaryOperator.negate.mark ++ text ++ rest))
      (expected.map (.unary .negate)) rest := by
  have htext : UnaryOperator.negate.mark ++ text ++ rest = '-' :: (text ++ rest) := rfl
  rw [htext, operand_of_minus hdigit]
  cases expected with
  | none =>
      exact Derails.of_bind fun _ _ => Derails.bind h fun _ _ hminus => .of_minus hminus
  | some value =>
      have hok : inner .operand scopes (text ++ rest) = .ok (value, rest) := h
      rw [hcheck rfl, hok]
      rfl

end Grammar

end ODataRequest
