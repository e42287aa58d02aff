import ODataRequest.Proofs.Query.Primaries

/-! A minus sign that is written in front of an operand. Before a name, a parenthesis or another sign
it is a mark of its own; before the digits of a number it becomes their sign; before any other literal
it is rejected, or at least never leaves a text that could follow an operand. -/

namespace ODataRequest

open Text Unicode Reader

namespace Grammar

variable {inner : GoalReader} {scopes : Scopes} {text start rest : Text}

/-! ### Literals under a sign -/

theorem written_of_numeric {value : Literal} (h : value.WellFormed) (hnumeric : value.isNumeric = true) :
    Number.Written value.render := by
  cases value with
  | integer value => exact Number.written_iff.mpr (Or.inl (Number.isInteger_ofInt value))
  | decimal text => exact h.1
  | null => cases hnumeric
  | boolean value => cases hnumeric
  | string value => cases hnumeric
  | guid text => cases hnumeric
  | enumeration typeName value => cases hnumeric

theorem written_minus (h : Number.Written text) (hsign : text.head? ≠ some '-') :
    Number.Written ('-' :: text) := by
  obtain ⟨hs, hwhole, hfraction, hexponent⟩ := h
  rcases hs with rfl | rfl
  · exact Number.Written.mk (Or.inr rfl) hwhole hfraction hexponent
  · exact absurd rfl hsign

/-- A number has too few hyphens to be the whole of a signed identifier, so that it ends at one of the
others or before what continues a name. -/
theorem continuesName_or_hyphen_of_number {guid number after : Text} (h : isGuid guid = true)
    (hwritten : Number.Written number) (hsplit : '-' :: (guid ++ rest) = number ++ after) :
    Lexeme.continuesName after = true ∨ after.head? = some '-' := by
  have hcount : ('-' :: guid).count '-' = 5 := by
    rw [List.count_cons_self, count_hyphen_of_isGuid h]
  have hnumber : number.count '-' ≤ 2 := Number.count_hyphen_of_written hwritten
  rw [← List.cons_append] at hsplit
  rcases List.append_eq_append_iff.mp hsplit with ⟨extra, hextra, -⟩ | ⟨left, hleft, hafter⟩
  · rw [hextra, List.count_append] at hnumber
    omega
  · rw [hleft, List.count_append] at hcount
    cases left with
    | nil =>
        rw [List.count_nil] at hcount
        omega
    | cons c left =>
        have hmem : c ∈ '-' :: guid := by
          rw [hleft]
          exact List.mem_append_right _ List.mem_cons_self
        rw [hafter, List.cons_append]
        rcases List.mem_cons.mp hmem with rfl | hmem
        · exact Or.inr rfl
        · rcases mem_of_isGuid h hmem with hhex | rfl
          · exact Or.inl (Lexeme.isNameContinue_of_isHexDigit hhex)
          · exact Or.inr rfl

/-- A sign before an identifier that begins with a digit takes those digits for a number and leaves a
hyphen of the identifier, if it leaves anything that does not continue a name. -/
theorem next?_minus_guid {guid : Text} (h : isGuid guid = true)
    (hdigit : (guid ++ rest).head?.any Char.isDigit = true) {lexeme : Lexeme}
    (hnext : Lexeme.next? ('-' :: (guid ++ rest)) = .ok (some lexeme)) :
    (∃ value, lexeme.token = .literal value) ∧ lexeme.rest.head? = some '-' := by
  have hunsigned : (Number.unsigned ('-' :: (guid ++ rest))).head?.any Char.isDigit = true := hdigit
  obtain ⟨hwritten, hsplit⟩ := Number.spanNumber_spec hunsigned
  have hsymbol : Symbol.ofChar? '-' = none := rfl
  have hscan : Lexeme.scan '-' (guid ++ rest) = Lexeme.scanNumber ('-' :: (guid ++ rest)) := by
    rw [Lexeme.scan, hsymbol]
    dsimp only
    rw [if_neg (by decide), Lexeme.startsWithGuid_of_minus, if_neg Bool.false_ne_true, if_pos rfl,
      hdigit, if_pos rfl]
  rw [Lexeme.next?_cons (by decide), hscan, Lexeme.scanNumber] at hnext
  dsimp only at hnext
  by_cases hname : Lexeme.continuesName (Lexeme.spanNumber ('-' :: (guid ++ rest))).2 = true
  · rw [if_pos hname] at hnext
    cases hnext
  rw [if_neg hname, Lexeme.literalToken_of_ofText? (Literal.ofText?_number hwritten)] at hnext
  cases hnext
  exact ⟨⟨_, rfl⟩, (continuesName_or_hyphen_of_number h hwritten hsplit).resolve_left hname⟩

/-- An operand is read from the next token on. -/
theorem next?_of_operand {value : Expression} (h : operand inner scopes text = .ok (value, rest)) :
    ∃ next, Lexeme.next? text = .ok next := by
  obtain ⟨negated, hnegated, -⟩ := bind_eq_ok.mp h
  obtain ⟨next, hnext, -⟩ := bind_eq_ok.mp hnegated
  exact ⟨next, hnext⟩

theorem operand_of_end (h : Lexeme.next? text = .ok none) (value : Expression) :
    operand inner scopes text ≠ .ok (value, rest) := by
  intro hok
  rw [operand, word?, h] at hok
  have hsymbol : symbol? .minus text = .ok none := by
    rw [symbol?, h]
    rfl
  replace hok : (symbol? .minus text >>= _) = _ := hok
  rw [hsymbol] at hok
  replace hok : primary inner scopes text = _ := hok
  rw [primary, h] at hok
  exact eq_error_of_unexpected hok

/-- An operand that is read as a literal with a minus sign left after it. -/
theorem derails_of_literal (h : ∀ lexeme, Lexeme.next? text = .ok (some lexeme) →
    (∃ value, lexeme.token = .literal value) ∧ lexeme.rest.head? = some '-') :
    Derails (operand inner scopes text) := by
  intro value rest hok
  obtain ⟨next, hnext⟩ := next?_of_operand hok
  cases next with
  | none => exact absurd hok (operand_of_end hnext value)
  | some lexeme =>
      obtain ⟨⟨found, htoken⟩, hrest⟩ := h lexeme hnext
      obtain ⟨token, start, after⟩ := lexeme
      cases htoken
      rw [operand_of_literal hnext] at hok
      cases hok
      exact hrest

theorem checkNumericOperand_of_literal {value : Literal}
    (h : Lexeme.next? text = .ok (some ⟨.literal value, start, rest⟩)) :
    checkNumericOperand text = .ok () ↔ value.isNumeric = true := by
  rw [checkNumericOperand, h]
  show (if value.isNumeric then Except.ok () else unexpected .numericOperand text) = _ ↔ _
  by_cases hnumeric : value.isNumeric = true
  · simp [hnumeric]
  · rw [if_neg hnumeric]
    exact ⟨fun hok => (eq_error_of_unexpected hok).elim, fun h => absurd h hnumeric⟩

/-- Of the literals that are no numbers, only identifiers begin with a digit. -/
theorem guid_of_digit {value : Literal} (h : value.WellFormed) (hnumeric : ¬value.isNumeric = true)
    (hdigit : (value.render ++ rest).head?.any Char.isDigit = true) :
    ∃ guid, value = .guid guid := by
  cases value with
  | guid text => exact ⟨text, rfl⟩
  | integer value => exact absurd rfl hnumeric
  | decimal text => exact absurd rfl hnumeric
  | null => cases hdigit
  | boolean value => cases value <;> cases hdigit
  | string value => cases hdigit
  | enumeration typeName value =>
      obtain ⟨c, others, rfl, hc⟩ := Literal.head_of_isQualifiedName h
      have hstart := Lexeme.isNameStart_of_isStart hc
      have hfirst : c.isDigit = true := hdigit
      rw [Lexeme.not_digit_of_isNameStart hstart] at hfirst
      cases hfirst

/-- A sign before a literal is read back as the literal says. -/
theorem reads_negatedLiteral {value : Literal} (h : value.WellFormed)
    (hrest : Stops unaryPrecedence rest)
    (hinner : inner .operand scopes (value.render ++ rest) = .ok (.literal value, rest)) :
    ReadsAs (operand inner scopes (UnaryOperator.negate.mark ++ value.render ++ rest))
      value.rereadNegated rest := by
  have htext : UnaryOperator.negate.mark ++ value.render ++ rest = '-' :: (value.render ++ rest) := rfl
  have hnext := Lexeme.next?_literal h hrest.breaks
  rw [htext]
  by_cases hnumeric : value.isNumeric = true
  · have hwritten := written_of_numeric h hnumeric
    by_cases hsign : value.render.head? = some '-'
    · have hreread : value.rereadNegated = some (.unary .negate (.literal value)) := by
        rw [Literal.rereadNegated, if_pos hnumeric, if_pos hsign]
      have hdigit : (value.render ++ rest).head?.any Char.isDigit = false := by
        obtain ⟨others, hothers⟩ := List.head?_eq_some_iff.mp hsign
        rw [hothers]
        rfl
      rw [hreread, operand_of_minus hdigit, (checkNumericOperand_of_literal hnext).mpr hnumeric, hinner]
      rfl
    · have hreread : value.rereadNegated = some (.literal (.ofNumber ('-' :: value.render))) := by
        rw [Literal.rereadNegated, if_pos hnumeric, if_neg hsign]
      rw [hreread, ← List.cons_append]
      exact operand_of_literal (Lexeme.next?_number (written_minus hwritten hsign) hrest.breaks)
  · have hreread : value.rereadNegated = none := if_neg hnumeric
    rw [hreread]
    by_cases hdigit : (value.render ++ rest).head?.any Char.isDigit = true
    · obtain ⟨guid, rfl⟩ := guid_of_digit h hnumeric hdigit
      exact derails_of_literal fun lexeme hlexeme => next?_minus_guid h.1 hdigit hlexeme
    · rw [Bool.not_eq_true] at hdigit
      rw [operand_of_minus hdigit]
      refine Derails.of_bind fun _ hcheck => ?_
      exact absurd ((checkNumericOperand_of_literal hnext).mp hcheck) hnumeric

/-! ### Other operands under a sign -/

theorem isNumeric_of_minus {others : Text} {value : Literal}
    (h : Lexeme.next? ('-' :: others) = .ok (some ⟨.literal value, start, rest⟩)) :
    value.isNumeric = true := by
  have hsymbol : Symbol.ofChar? '-' = none := rfl
  rw [Lexeme.next?_cons (by decide), Lexeme.scan, hsymbol] at h
  dsimp only at h
  rw [if_neg (by decide), Lexeme.startsWithGuid_of_minus, if_neg Bool.false_ne_true,
    if_pos rfl] at h
  by_cases hdigit : others.head?.any Char.isDigit = true
  · have hunsigned : (Number.unsigned ('-' :: others)).head?.any Char.isDigit = true := hdigit
    obtain ⟨hwritten, -⟩ := Number.spanNumber_spec hunsigned
    rw [if_pos hdigit, Lexeme.scanNumber] at h
    dsimp only at h
    by_cases hname : Lexeme.continuesName (Lexeme.spanNumber ('-' :: others)).2 = true
    · rw [if_pos hname] at h
      cases h
    · rw [if_neg hname, Lexeme.literalToken_of_ofText? (Literal.ofText?_number hwritten)] at h
      cases h
      exact Literal.isNumeric_ofNumber _
  · rw [if_neg hdigit] at h
    cases h

end Grammar

open Grammar

/-- A text that a sign can stand in front of and stay a mark of its own. -/
inductive SignHead : Text → Prop where
  | group (text : Text) : SignHead ('(' :: text)
  | minus (text : Text) : SignHead ('-' :: text)
  | name {word text : Text} (hname : Lexeme.isName word = true)
      (hbreaks : ∀ rest, Lexeme.breaks rest = true → Lexeme.breaks (text ++ rest) = true) :
      SignHead (word ++ text)

namespace SignHead

variable {text rest : Text}

theorem not_digit (h : SignHead text) (rest : Text) :
    (text ++ rest).head?.any Char.isDigit = false := by
  cases h with
  | group => rfl
  | minus => rfl
  | name hname _ =>
      obtain ⟨c, others, rfl, hc, -⟩ := Lexeme.isWord_cons (Lexeme.isWord_of_isName hname)
      exact Lexeme.not_digit_of_isNameStart hc

theorem checkNumericOperand (h : SignHead text) (hrest : Lexeme.breaks rest = true)
    (hnext : ∃ next, Lexeme.next? (text ++ rest) = .ok next) :
    Grammar.checkNumericOperand (text ++ rest) = .ok () := by
  cases h with
  | group text =>
      have hopen : Lexeme.next? ('(' :: text ++ rest) = _ :=
        Lexeme.next?_symbol .openParen (text ++ rest)
      rw [Grammar.checkNumericOperand, hopen]
      rfl
  | minus text =>
      obtain ⟨next, hnext⟩ := hnext
      obtain ⟨lexeme, rfl, -, -⟩ := next?_of_minus rfl hnext
      obtain ⟨token, start, after⟩ := lexeme
      cases token with
      | name word =>
          rw [Grammar.checkNumericOperand, hnext]
          rfl
      | literal value => exact (checkNumericOperand_of_literal hnext).mpr (isNumeric_of_minus hnext)
      | symbol mark =>
          rw [Grammar.checkNumericOperand, hnext]
          rfl
  | name hname hbreaks =>
      rename_i word text
      have hword := Lexeme.next?_name hname (hbreaks rest hrest)
      rw [List.append_assoc, Grammar.checkNumericOperand, hword]
      rfl

theorem of_begins {scopes : Scopes} {route : PropertyAccess}
    (h : PropertyAccess.Begins scopes route.qualifier route.path) {tail : Text}
    (htail : ∀ rest, Lexeme.breaks rest = true → Lexeme.breaks (tail ++ rest) = true) :
    SignHead (route.render ++ tail) := by
  obtain ⟨head, members, hrender, hname, -⟩ := render_of_begins h
  rw [hrender, List.append_assoc]
  refine .name hname fun rest hrest => ?_
  cases members with
  | nil => exact htail rest hrest
  | cons member members => rfl

/-- A readable operand that is no literal. -/
theorem of_fits {scopes : Scopes} {levels : Nat} {operand : Expression}
    (h : (operand.resolved scopes).Fits scopes levels)
    (hreadable : ∀ reference ∈ operand.references scopes, reference.Readable)
    (hprecedence : unaryPrecedence ≤ operand.precedence)
    (hliteral : ∀ value, operand ≠ .literal value) : SignHead operand.render := by
  cases operand with
  | literal value => exact absurd rfl (hliteral value)
  | access route =>
      cases h with
      | access hroute _ =>
          have hbegins := (hreadable (.path scopes route) List.mem_cons_self).begins hroute
          have := of_begins hbegins fun rest (hrest : Lexeme.breaks ([] ++ rest) = true) => hrest
          rwa [List.append_nil] at this
  | rangeVariable name =>
      cases h with
      | rangeVariable hvariable =>
          simp only [Scopes.isVariable, Bool.and_eq_true] at hvariable
          have hhead : SignHead (name ++ []) := .name hvariable.1.1.2 fun rest hrest => hrest
          rwa [List.append_nil] at hhead
  | binary op left right =>
      have := (precedence_bounds op).2
      have hsix : unaryPrecedence = 6 := rfl
      have hop : (Expression.binary op left right).precedence = op.precedence := rfl
      omega
  | unary op operand =>
      cases op with
      | not =>
          show SignHead (negation ++ ' ' :: renderOperand unaryPrecedence operand.precedence _)
          exact name isName_negation fun rest _ => rfl
      | negate => exact minus _
  | count route =>
      cases h with
      | count hroute =>
          have hbegins := (hreadable (.path scopes route) List.mem_cons_self).begins hroute
          exact of_begins hbegins fun rest _ => rfl
  | subquery route options =>
      cases h with
      | subquery hroute _ =>
          have hbegins := (hreadable (.path scopes route) List.mem_cons_self).begins hroute
          rw [Expression.render, PropertyAccess.renderCount, List.append_assoc]
          exact of_begins hbegins fun rest _ => rfl
  | lambda kind route binder body =>
      have hbegins := (hreadable (.path scopes route) List.mem_cons_self).begins
        (Expression.lambda_of_resolved h).1
      rw [Expression.render, List.append_assoc]
      exact of_begins hbegins fun rest _ => rfl
  | call function arguments =>
      cases h with
      | call hfunction _ _ => exact name (isName_of_isMember hfunction) fun rest _ => rfl

/-- A readable operand in the place behind a sign, with its parentheses. -/
theorem of_fitsAt {scopes : Scopes} {levels : Nat} {operand : Expression}
    (h : (operand.resolved scopes).FitsAt unaryPrecedence scopes levels)
    (hreadable : ∀ reference ∈ operand.references scopes, reference.Readable)
    (hliteral : ∀ value, operand ≠ .literal value) :
    SignHead (renderOperand unaryPrecedence operand.precedence operand.render) := by
  cases h with
  | bare hprecedence h =>
      rw [Expression.precedence_resolved] at hprecedence
      rw [renderOperand, if_neg (Nat.not_lt_of_le hprecedence)]
      exact of_fits h hreadable hprecedence hliteral
  | group hprecedence _ =>
      rw [Expression.precedence_resolved] at hprecedence
      rw [renderOperand, if_pos hprecedence]
      exact group _

end SignHead

end ODataRequest
