import ODataRequest.Proofs.Query.OptionTexts

/-! Canonical texts are read again. A tree that resolves to one that the grammar can give with a number
of levels is written as a text that the grammar reads with that number of levels, as what the resolved
tree is reread as, provided that its paths are readable. One lemma for each construct that nests; the
induction is over the tree that is written. -/

namespace ODataRequest

open Text Unicode Nesting Reader

namespace Grammar

variable {inner : GoalReader} {scopes : Scopes} {levels : Nat} {text rest : Text}

/-! ### Arguments -/

/-- A text that begins with neither a blank nor a closing parenthesis. -/
def BeginsOperand (text : Text) : Prop :=
  ∃ first others, text = first :: others ∧ isWhiteSpace first = false ∧ first ≠ ')'

theorem BeginsOperand.append (h : BeginsOperand text) (rest : Text) : BeginsOperand (text ++ rest) := by
  obtain ⟨first, others, rfl, hblank, hclose⟩ := h
  exact ⟨first, others ++ rest, rfl, hblank, hclose⟩

theorem BeginsOperand.not_close (h : BeginsOperand text) {found : Option Text}
    (hfound : symbol? .closeParen text = .ok found) : found = none := by
  obtain ⟨first, others, rfl, hblank, hclose⟩ := h
  cases found with
  | none => rfl
  | some after =>
      obtain ⟨start, hnext⟩ := next?_of_symbol? hfound
      obtain ⟨blanks, word, htext, hblanks, hspells⟩ := Lexeme.eq_of_next? hnext
      cases hspells
      cases blanks with
      | nil => exact absurd (List.cons.inj htext).1 hclose
      | cons c blanks =>
          rw [List.all_cons, Bool.and_eq_true, ← (List.cons.inj htext).1, hblank] at hblanks
          exact absurd hblanks.1 Bool.false_ne_true

theorem beginsOperand_of_isNameStart {first : Char} (h : Lexeme.isNameStart first = true)
    (others : Text) : BeginsOperand (first :: others) :=
  ⟨first, others, rfl, Lexeme.not_blank_of_isNameStart h, Lexeme.ne_of_isNameStart h⟩

theorem beginsOperand_of_isNameContinue {first : Char} (h : Lexeme.isNameContinue first = true)
    (others : Text) : BeginsOperand (first :: others) :=
  ⟨first, others, rfl, Lexeme.not_blank_of_isNameContinue h, Lexeme.ne_of_isNameContinue h⟩

theorem beginsOperand_of_written (h : Number.Written text) : BeginsOperand text := by
  obtain ⟨-, first, others, rfl, hdigit | rfl⟩ := Number.head_of_written h
  · exact beginsOperand_of_isNameContinue (Lexeme.isNameContinue_of_isDigit hdigit) others
  · exact ⟨'-', others, rfl, by decide, by decide⟩

theorem beginsOperand_of_literal {value : Literal} (h : value.WellFormed) :
    BeginsOperand value.render := by
  cases value with
  | null => exact beginsOperand_of_isNameStart (by decide) _
  | boolean value =>
      cases value <;> exact beginsOperand_of_isNameStart (by decide) _
  | integer value => exact beginsOperand_of_written (written_of_numeric h rfl)
  | decimal text => exact beginsOperand_of_written h.1
  | string value => exact ⟨quoteMark, _, rfl, by decide, by decide⟩
  | guid text =>
      obtain ⟨first, others, rfl, hfirst⟩ := head_of_isGuid h.1
      exact beginsOperand_of_isNameContinue (Lexeme.isNameContinue_of_isHexDigit hfirst) others
  | enumeration typeName value =>
      obtain ⟨first, others, rfl, hfirst⟩ := Literal.head_of_isQualifiedName h
      exact beginsOperand_of_isNameStart (Lexeme.isNameStart_of_isStart hfirst) _

theorem beginsOperand_of_signHead (h : SignHead text) : BeginsOperand text := by
  cases h with
  | group text => exact ⟨'(', text, rfl, by decide, by decide⟩
  | minus text => exact ⟨'-', text, rfl, by decide, by decide⟩
  | name hname hbreaks =>
      obtain ⟨first, others, rfl, hfirst, -⟩ := Lexeme.isWord_cons (Lexeme.isWord_of_isName hname)
      exact beginsOperand_of_isNameStart hfirst _

theorem unary_le_primary : unaryPrecedence ≤ primaryPrecedence := by
  decide

/-- What binds at least as tightly as a sign is a literal, or a sign can stand in front of it. -/
theorem beginsOperand_of_tight {operand : Expression} (h : (operand.resolved scopes).Fits scopes levels)
    (hreadable : ∀ reference ∈ operand.references scopes, reference.Readable)
    (hprecedence : unaryPrecedence ≤ operand.precedence) : BeginsOperand operand.render := by
  by_cases hliteral : ∃ value, operand = .literal value
  · obtain ⟨value, rfl⟩ := hliteral
    cases h with
    | literal h => exact beginsOperand_of_literal h
  · exact beginsOperand_of_signHead
      (.of_fits h hreadable hprecedence fun value heq => hliteral ⟨value, heq⟩)

end Grammar

open Grammar

theorem Expression.beginsOperand : ∀ {expression : Expression} {scopes : Scopes} {levels : Nat},
    (expression.resolved scopes).Fits scopes levels →
    (∀ reference ∈ expression.references scopes, reference.Readable) →
      BeginsOperand expression.render
  | .literal _, _, _, h, hreadable => beginsOperand_of_tight h hreadable unary_le_primary
  | .access _, _, _, h, hreadable => beginsOperand_of_tight h hreadable unary_le_primary
  | .rangeVariable _, _, _, h, hreadable => beginsOperand_of_tight h hreadable unary_le_primary
  | .binary op left right, scopes, _, h, hreadable => by
      rw [Expression.references, List.forall_mem_append] at hreadable
      rw [Expression.render, List.append_assoc]
      refine BeginsOperand.append ?_ _
      cases h with
      | binary hleft _ =>
          cases hleft with
          | bare hprecedence hfits =>
              rw [Expression.precedence_resolved] at hprecedence
              rw [renderOperand, if_neg (Nat.not_lt_of_le hprecedence)]
              exact Expression.beginsOperand hfits hreadable.1
          | group hprecedence _ =>
              rw [Expression.precedence_resolved] at hprecedence
              rw [renderOperand, if_pos hprecedence]
              exact beginsOperand_of_signHead (.group _)
  | .unary _ _, _, _, h, hreadable => beginsOperand_of_tight h hreadable (Nat.le_refl _)
  | .count _, _, _, h, hreadable => beginsOperand_of_tight h hreadable unary_le_primary
  | .subquery _ _, _, _, h, hreadable => beginsOperand_of_tight h hreadable unary_le_primary
  | .lambda _ _ _ _, _, _, h, hreadable => beginsOperand_of_tight h hreadable unary_le_primary
  | .call _ _, _, _, h, hreadable => beginsOperand_of_tight h hreadable unary_le_primary

namespace Grammar

variable {inner : GoalReader} {scopes : Scopes} {levels : Nat} {text rest : Text}

/-! ### Constructs that nest -/

theorem next?_of_strata {height : Nat} {value : Expression}
    (h : strata inner scopes height text = .ok (value, rest)) :
    ∃ next, Lexeme.next? text = .ok next := by
  induction height generalizing value rest with
  | zero => exact next?_of_operand h
  | succ height ih =>
      obtain ⟨⟨left, middle⟩, hleft, -⟩ := bind_eq_ok.mp h
      exact ih hleft

/-- The arguments of a call up to the closing parenthesis, where there are some. -/
theorem reads_arguments {expected : Option (List Expression)} (hbegins : BeginsOperand text)
    (h : ReadsAs (commaList (expression inner scopes) text) expected rest) :
    ReadsAs (arguments inner scopes text) expected rest := by
  cases expected with
  | none =>
      refine Derails.of_bind fun found hfound => ?_
      cases hbegins.not_close hfound
      exact h
  | some values =>
      have hok : commaList (expression inner scopes) text = .ok (values, rest) := h
      obtain ⟨⟨first, middle⟩, hfirst, -⟩ := bind_eq_ok.mp hok
      rw [expression_eq_strata] at hfirst
      obtain ⟨next, hnext⟩ := next?_of_strata hfirst
      have hclose : symbol? .closeParen text = .ok none := by
        cases hfound : symbol? .closeParen text with
        | ok found =>
            cases hbegins.not_close hfound
            rfl
        | error e =>
            rw [symbol?, hnext] at hfound
            cases next with
            | none => cases hfound
            | some lexeme =>
                obtain ⟨token, start, after⟩ := lexeme
                cases token <;> cases hfound
      rw [arguments, hclose]
      exact h

theorem ends_close (rest : Text) : Ends valueMarks (')' :: rest) :=
  Or.inr ⟨.closeParen, by simp, rest, rfl⟩

theorem reads_argumentList {arguments : List Expression} {reread : Expression → Option Expression}
    (hbegins : ∀ argument ∈ arguments, BeginsOperand argument.render)
    (h : ∀ argument ∈ arguments, ∀ rest, Ends itemMarks rest →
      ReadsAs (expression inner scopes (argument.render ++ rest)) (reread argument) rest) :
    ReadsAs (Grammar.arguments inner scopes
      (joinTexts ',' (Expression.renderAll arguments) ++ ')' :: rest))
      (rereadEach reread arguments) (')' :: rest) := by
  rw [Expression.renderAll_eq_map]
  cases arguments with
  | nil =>
      have hclose : symbol? .closeParen (')' :: rest) = _ := symbol?_mark .closeParen rest
      show Grammar.arguments inner scopes (')' :: rest) = _
      rw [Grammar.arguments, hclose]
      rfl
  | cons first others =>
      refine reads_arguments ?_ (reads_commaList h (by simp) (ends_close rest))
      rw [List.map_cons, joinTexts_cons, List.append_assoc]
      exact (hbegins first List.mem_cons_self).append _

/-- A sign or a negation before an operand. -/
theorem operandText_unary {op : UnaryOperator} {operand : Expression}
    (hfits : (operand.resolved scopes).FitsAt unaryPrecedence scopes levels)
    (hreadable : ∀ reference ∈ operand.references scopes, reference.Readable)
    (h : OperandText (nested levels) scopes unaryPrecedence
      (renderOperand unaryPrecedence operand.precedence operand.render)
      (operand.resolved scopes).reread) :
    OperandText (nested (levels + 1)) scopes unaryPrecedence (Expression.unary op operand).render
      ((Expression.unary op operand).resolved scopes).reread := by
  refine .of_tight fun rest hrest => ?_
  have hoperand := h.tight rfl rest hrest
  rw [Expression.render, Expression.resolved]
  cases op with
  | not =>
      have hreread : (Expression.unary .not (operand.resolved scopes)).reread =
          (operand.resolved scopes).reread.map (.unary .not) := by
        rw [Expression.reread]
        simp
      rw [hreread]
      refine reads_not ?_
      rw [← operand_space] at hoperand
      exact hoperand
  | negate =>
      by_cases hliteral : ∃ value, operand = .literal value
      · obtain ⟨value, rfl⟩ := hliteral
        cases hfits with
        | bare _ hfits =>
            cases hfits with
            | literal hvalue => exact reads_negatedLiteral hvalue hrest hoperand
        | group hprecedence _ => exact absurd hprecedence (Nat.not_lt_of_le unary_le_primary)
      · have hhead := SignHead.of_fitsAt hfits hreadable fun value heq => hliteral ⟨value, heq⟩
        have hreread : (Expression.unary .negate (operand.resolved scopes)).reread =
            (operand.resolved scopes).reread.map (.unary .negate) := by
          rw [Expression.reread]
          exact fun value _ heq => hliteral ⟨value, Expression.eq_literal_of_resolved heq⟩
        rw [hreread]
        refine reads_negate (hhead.not_digit rest) (fun hsome => ?_) hoperand
        obtain ⟨value, hvalue⟩ := Option.isSome_iff_exists.mp hsome
        rw [hvalue] at hoperand
        exact hhead.checkNumericOperand hrest.breaks (next?_of_operand hoperand)

theorem min_precedence (op : BinaryOperator) : min unaryPrecedence op.precedence = op.precedence := by
  cases op <;> decide

theorem one_le_precedence (expression : Expression) : 1 ≤ min unaryPrecedence expression.precedence := by
  have hpositive : 1 ≤ expression.precedence := by
    cases expression with
    | binary op _ _ => exact (precedence_bounds op).1
    | _ => exact Nat.succ_pos _
  exact Nat.le_min.mpr ⟨by decide, hpositive⟩

/-- An operand of its own strength is a whole expression. -/
theorem reads_whole {expression : Expression} {expected : Option Expression}
    (h : OperandText inner scopes (min unaryPrecedence expression.precedence) text expected)
    (hrest : Stops 1 rest) : ReadsAs (Grammar.expression inner scopes (text ++ rest)) expected rest :=
  h.expression (one_le_precedence expression) (Nat.min_le_left _ _) hrest

/-- An operand is written with the parentheses that its place demands. -/
theorem operandText_at {demanded : Nat} {operand : Expression} {expected : Option Expression}
    (h : ∀ {levels : Nat}, (operand.resolved scopes).Fits scopes levels →
      OperandText (nested levels) scopes (min unaryPrecedence operand.precedence) operand.render
        expected)
    (hfits : (operand.resolved scopes).FitsAt demanded scopes levels)
    (hdemanded : demanded ≤ unaryPrecedence) :
    OperandText (nested levels) scopes demanded
      (renderOperand demanded operand.precedence operand.render) expected := by
  cases hfits with
  | bare hprecedence hfits =>
      rw [Expression.precedence_resolved] at hprecedence
      rw [renderOperand, if_neg (Nat.not_lt_of_le hprecedence)]
      exact (h hfits).loosen (Nat.le_min.mpr ⟨hdemanded, hprecedence⟩) (Nat.min_le_left _ _)
  | group hprecedence hfits =>
      rw [Expression.precedence_resolved] at hprecedence
      rw [renderOperand, if_pos hprecedence]
      refine OperandText.loosen (.of_tight fun rest _ => ?_) hdemanded (Nat.le_refl _)
      exact reads_group (reads_whole (h hfits) ((ends_close rest).item.stopsItem 1))

/-- A list of options is read as its values are. -/
theorem readsAs_options {kind : OptionListKind} {options : List ParsedOption}
    (h : ParsedOption.AllFit kind scopes levels (ParsedOption.resolvedAll scopes options))
    (hvalues : ∀ option ∈ options, ∀ rest, Ends valueMarks rest →
      ReadsAs (optionValue (nested levels) scopes option.name (option.value.render ++ rest))
        (option.value.resolved scopes).reread rest) :
    ReadsAs (level (nested levels) (.options kind) scopes
      (joinTexts ';' (ParsedOption.renderAll options) ++ ')' :: rest))
      (ParsedOption.rereadAll (ParsedOption.resolvedAll scopes options)) (')' :: rest) := by
  rw [ParsedOption.resolvedAll_eq_map] at h ⊢
  have hreread : (fun option => ParsedOption.reread (option.resolved scopes)) =
      ParsedOption.rereadBy fun value => (value.resolved scopes).reread := by
    funext option
    cases option
    rfl
  rw [ParsedOption.rereadAll_eq_rereadEach, rereadEach_map, hreread]
  cases h with
  | mk hnonempty hdistinct hallowed _ =>
      have hnames : (options.map (ParsedOption.resolved scopes)).map ParsedOption.name =
          options.map ParsedOption.name := by
        simp [Function.comp_def]
      rw [hnames] at hdistinct
      refine reads_options (by simpa using hnonempty) hvalues ?_ hdistinct
      intro option hmem
      have hallows := hallowed _ (List.mem_map_of_mem hmem)
      rwa [ParsedOption.name_resolved] at hallows

end Grammar

/-! ### The induction -/

mutual

/-- The canonical text of an expression is read as the resolved expression is reread. -/
theorem Expression.operandText_of_resolved : ∀ (expression : Expression) {scopes : Scopes}
    {levels : Nat}, (expression.resolved scopes).Fits scopes levels →
    (∀ reference ∈ expression.references scopes, reference.Readable) →
      OperandText (nested levels) scopes (min unaryPrecedence expression.precedence)
        expression.render (expression.resolved scopes).reread
  | .literal _, _, _, h, _ => by
      cases h with
      | literal hvalue => exact .of_tight fun _ hrest => reads_literal hvalue hrest
  | .access route, scopes, _, h, hreadable => by
      cases h with
      | access hroute hpath =>
          have hbegins := (hreadable (.path scopes route) List.mem_cons_self).begins hroute
          exact .of_tight fun _ hrest => reads_access hbegins hpath hrest
  | .rangeVariable _, _, _, h, _ => by
      cases h with
      | rangeVariable hvariable =>
          exact .of_tight fun _ hrest => reads_rangeVariable hvariable hrest
  | .binary op left right, scopes, levels, h, hreadable => by
      rw [Expression.references, List.forall_mem_append] at hreadable
      cases h with
      | binary hleft hright =>
          have hbounds := precedence_bounds op
          have hsix : unaryPrecedence = 6 := rfl
          have hprecedence : min unaryPrecedence (Expression.binary op left right).precedence =
              op.precedence := min_precedence op
          have hleft' := operandText_at
            (fun hfits => left.operandText_of_resolved hfits hreadable.1) hleft (by omega)
          have hright' := operandText_at
            (fun hfits => right.operandText_of_resolved hfits hreadable.2) hright (by omega)
          rw [hprecedence, Expression.render, Expression.resolved, Expression.reread]
          exact .binary hleft' hright'
  | .unary _ operand, _, _, h, hreadable => by
      rw [Expression.references] at hreadable
      cases h with
      | unary h =>
          have hoperand := operandText_at
            (fun hfits => operand.operandText_of_resolved hfits hreadable) h (by decide)
          exact operandText_unary h hreadable hoperand
  | .count route, scopes, _, h, hreadable => by
      cases h with
      | count hroute =>
          have hbegins := (hreadable (.path scopes route) List.mem_cons_self).begins hroute
          exact .of_tight fun _ hrest => reads_count hbegins hrest
  | .subquery route options, scopes, _, h, hreadable => by
      rw [Expression.references, List.forall_mem_cons] at hreadable
      cases h with
      | subquery hroute hoptions =>
          refine .of_tight fun rest _ => ?_
          rw [Expression.render, Expression.resolved, Expression.reread]
          refine reads_subquery (hreadable.1.begins hroute) (readsAs_options hoptions ?_)
          exact ParsedOption.readsAs_of_resolved options hoptions.values hreadable.2 (by simp)
  | .lambda kind route binder none, scopes, _, h, hreadable => by
      obtain ⟨hroute, ⟨rfl, rfl, -⟩ | ⟨_, _, _, -, hbody, -⟩⟩ := Expression.lambda_of_resolved h
      · have hbegins := (hreadable (.path scopes route) List.mem_cons_self).begins hroute
        exact .of_tight fun _ _ => reads_emptyLambda hbegins
      · cases hbody
  | .lambda kind route binder (some body), scopes, _, h, hreadable => by
      rw [Expression.references, List.forall_mem_cons, Expression.referencesBody] at hreadable
      obtain ⟨hroute, ⟨-, -, hbody⟩ | ⟨name, _, below, rfl, hinside, rfl, hidentifier, hname, hfits⟩⟩ :=
        Expression.lambda_of_resolved h
      · cases hbody
      · cases hinside
        have hbody := body.operandText_of_resolved hfits hreadable.2
        refine .of_tight fun rest _ => ?_
        rw [Expression.render, Expression.renderBody, Expression.resolved, Expression.resolvedBody,
          Expression.reread, Expression.rereadBody, Option.map_map]
        exact reads_lambda (hreadable.1.begins hroute) hidentifier hname
          (reads_whole hbody ((ends_close rest).item.stopsItem 1))
  | .call _ arguments, _, _, h, hreadable => by
      rw [Expression.references] at hreadable
      cases h with
      | call hfunction hnot harguments =>
          refine .of_tight fun rest _ => ?_
          rw [Expression.render, Expression.resolved, Expression.reread,
            Expression.rereadAll_eq_rereadEach, Expression.resolvedAll_eq_map, rereadEach_map]
          have hall := Expression.operandTexts_of_resolved arguments harguments hreadable
          refine reads_call hfunction hnot (reads_argumentList ?_ ?_)
          · exact fun argument hmem => (hall argument hmem).1
          · intro argument hmem rest hrest
            exact reads_whole (hall argument hmem).2 (hrest.stopsItem 1)

theorem Expression.operandTexts_of_resolved : ∀ (expressions : List Expression) {scopes : Scopes}
    {levels : Nat},
    (∀ expression ∈ Expression.resolvedAll scopes expressions, expression.Fits scopes levels) →
    (∀ reference ∈ Expression.referencesAll scopes expressions, reference.Readable) →
      ∀ expression ∈ expressions, BeginsOperand expression.render ∧
        OperandText (nested levels) scopes (min unaryPrecedence expression.precedence)
          expression.render (expression.resolved scopes).reread
  | [], _, _, _, _ => List.forall_mem_nil _
  | expression :: rest, _, _, h, hreadable => by
      rw [Expression.resolvedAll, List.forall_mem_cons] at h
      rw [Expression.referencesAll, List.forall_mem_append] at hreadable
      refine List.forall_mem_cons.mpr ⟨⟨?_, ?_⟩, ?_⟩
      · exact Expression.beginsOperand h.1 hreadable.1
      · exact expression.operandText_of_resolved h.1 hreadable.1
      · exact Expression.operandTexts_of_resolved rest h.2 hreadable.2

/-- The canonical text of the value of an option is read as the resolved value is reread. -/
theorem OptionValue.readsAs_of_resolved : ∀ (value : OptionValue) {scopes : Scopes} {levels : Nat}
    {option : SystemOption}, (value.resolved scopes).Fits scopes levels option →
    (∀ reference ∈ value.references scopes, reference.Readable) → ∀ {rest : Text},
      (scopes = [] → rest = []) → Ends valueMarks rest →
      ReadsAs (optionValue (nested levels) scopes option (value.render ++ rest))
        (value.resolved scopes).reread rest
  | .filter condition, _, _, _, h, hreadable, _, _, hrest => by
      rw [OptionValue.references] at hreadable
      cases h with
      | filter h =>
          exact .map (reads_whole (condition.operandText_of_resolved h hreadable)
            (hrest.item.stopsItem 1))
      | plain h => cases h
  | .orderBy items, _, _, _, h, hreadable, _, _, hrest => by
      rw [OptionValue.references] at hreadable
      rw [OptionValue.render, OptionValue.resolved, OptionValue.reread, OrderByItem.renderAll_eq_map,
        OrderByItem.rereadAll_eq_rereadEach, OrderByItem.resolvedAll_eq_map, rereadEach_map]
      cases h with
      | orderBy hnonempty h =>
          have hitems := OrderByItem.readsAs_of_resolved items h hreadable
          rw [OrderByItem.resolvedAll_eq_map] at hnonempty
          exact .map (reads_commaList hitems (by simpa using hnonempty) hrest)
      | plain h => cases h
  | .select items, _, _, _, h, _, _, _, hrest => by
      have hreread : (OptionValue.select items).reread = (rereadEach some items).map .select := by
        rw [rereadEach_some]
        rfl
      rw [OptionValue.render, OptionValue.resolved, hreread]
      cases h with
      | select hnonempty h =>
          exact .map (reads_commaList
            (fun item hmem rest hrest => selectItem_render (h item hmem) hrest) hnonempty hrest)
      | plain h => cases h
  | .expand items, _, _, _, h, hreadable, _, _, hrest => by
      rw [OptionValue.references] at hreadable
      rw [OptionValue.render, OptionValue.resolved, OptionValue.reread, ExpandItem.renderAll_eq_map,
        ExpandItem.rereadAll_eq_rereadEach, ExpandItem.resolvedAll_eq_map, rereadEach_map]
      cases h with
      | expand hnonempty h =>
          have hitems := ExpandItem.readsAs_of_resolved items h hreadable
          rw [ExpandItem.resolvedAll_eq_map] at hnonempty
          exact .map (reads_commaList hitems (by simpa using hnonempty) hrest)
      | plain h => cases h
  | .top _, _, _, _, h, _, _, htop, hrest | .skip _, _, _, _, h, _, _, htop, hrest
  | .count _, _, _, _, h, _, _, htop, hrest | .search _, _, _, _, h, _, _, htop, hrest
  | .apply _, _, _, _, h, _, _, htop, hrest | .format _, _, _, _, h, _, _, htop, hrest
  | .levels _, _, _, _, h, _, _, htop, hrest => by
      cases h with
      | plain h => exact optionValue_plain h htop hrest

theorem ParsedOption.readsAs_of_resolved : ∀ (options : List ParsedOption) {scopes : Scopes}
    {levels : Nat},
    (∀ option ∈ ParsedOption.resolvedAll scopes options,
      option.value.Fits scopes levels option.name) →
    (∀ reference ∈ ParsedOption.referencesAll scopes options, reference.Readable) → scopes ≠ [] →
      ∀ option ∈ options, ∀ rest, Ends valueMarks rest →
        ReadsAs (optionValue (nested levels) scopes option.name (option.value.render ++ rest))
          (option.value.resolved scopes).reread rest
  | [], _, _, _, _, _ => List.forall_mem_nil _
  | .mk _ value :: others, _, _, h, hreadable, hscopes => by
      rw [ParsedOption.resolvedAll, List.forall_mem_cons] at h
      rw [ParsedOption.referencesAll, List.forall_mem_append, ParsedOption.references] at hreadable
      refine List.forall_mem_cons.mpr ⟨?_, ?_⟩
      · intro rest hrest
        exact value.readsAs_of_resolved h.1 hreadable.1 (fun hnil => absurd hnil hscopes) hrest
      · exact ParsedOption.readsAs_of_resolved others h.2 hreadable.2 hscopes

theorem OrderByItem.readsAs_of_resolved : ∀ (items : List OrderByItem) {scopes : Scopes}
    {levels : Nat},
    (∀ item ∈ OrderByItem.resolvedAll scopes items, item.expression.Fits scopes levels) →
    (∀ reference ∈ OrderByItem.referencesAll scopes items, reference.Readable) →
      ∀ item ∈ items, ∀ rest, Ends itemMarks rest →
        ReadsAs (orderByItem (nested levels) scopes (item.render ++ rest))
          (item.resolved scopes).reread rest
  | [], _, _, _, _ => List.forall_mem_nil _
  | .mk key direction :: others, _, _, h, hreadable => by
      rw [OrderByItem.resolvedAll, List.forall_mem_cons] at h
      rw [OrderByItem.referencesAll, List.forall_mem_append, OrderByItem.references] at hreadable
      refine List.forall_mem_cons.mpr ⟨?_, ?_⟩
      · intro rest hrest
        exact reads_orderByItem direction (reads_whole (key.operandText_of_resolved h.1 hreadable.1)
          (stops_direction direction hrest 1)) hrest
      · exact OrderByItem.readsAs_of_resolved others h.2 hreadable.2

theorem ExpandItem.readsAs_of_resolved : ∀ (items : List ExpandItem) {scopes : Scopes}
    {levels : Nat},
    (∀ item ∈ ExpandItem.resolvedAll scopes items, item.Fits scopes levels) →
    (∀ reference ∈ ExpandItem.referencesAll scopes items, reference.Readable) →
      ∀ item ∈ items, ∀ rest, Ends itemMarks rest →
        ReadsAs (expandItem (nested levels) scopes (item.render ++ rest))
          (item.resolved scopes).reread rest
  | [], _, _, _, _ => List.forall_mem_nil _
  | .mk target options :: others, scopes, levels, h, hreadable => by
      rw [ExpandItem.resolvedAll, List.forall_mem_cons] at h
      rw [ExpandItem.referencesAll, List.forall_mem_append, ExpandItem.references,
        List.forall_mem_append] at hreadable
      obtain ⟨⟨-, hoptions⟩, hothers⟩ := hreadable
      refine List.forall_mem_cons.mpr ⟨?_, ExpandItem.readsAs_of_resolved others h.2 hothers⟩
      intro rest hrest
      obtain ⟨hitem, -⟩ := h
      cases options with
      | nil =>
          have htarget : target.WellFormed := by
            cases hitem with
            | bare htarget => exact htarget
            | options htarget _ => exact htarget
          rw [ExpandItem.render, List.isEmpty_nil, if_pos rfl, List.append_nil]
          exact reads_bareExpandItem htarget hrest
      | cons option options =>
          cases hitem with
          | options htarget hfit =>
              rw [ExpandItem.render, List.isEmpty_cons, if_neg Bool.false_ne_true,
                ExpandItem.resolved, ExpandItem.reread]
              refine reads_expandItem htarget (readsAs_options hfit ?_)
              exact ParsedOption.readsAs_of_resolved (option :: options) hfit.values hoptions (by simp)

end

/-- The canonical text of an expression that fits its scopes is read as the expression is reread. -/
theorem Expression.Fits.operandText {scopes : Scopes} {levels : Nat} {expression : Expression}
    (h : expression.Fits scopes levels) :
    OperandText (nested levels) scopes (min unaryPrecedence expression.precedence) expression.render
      expression.reread := by
  have hresolved := h.resolved_eq
  have htext := expression.operandText_of_resolved (hresolved.symm ▸ h)
    fun reference hmem => (h.resolves reference hmem).readable
  rwa [hresolved] at htext

/-- The canonical text of the fitting value of an option is read as the value is reread. -/
theorem OptionValue.Fits.readsAs {scopes : Scopes} {levels : Nat} {option : SystemOption}
    {value : OptionValue} (h : value.Fits scopes levels option) {rest : Text}
    (htop : scopes = [] → rest = []) (hrest : Ends valueMarks rest) :
    ReadsAs (optionValue (nested levels) scopes option (value.render ++ rest)) value.reread rest := by
  have hresolved := h.resolved_eq
  have hreads := value.readsAs_of_resolved (hresolved.symm ▸ h)
    (fun reference hmem => (h.resolves reference hmem).readable) htop hrest
  rwa [hresolved] at hreads

end ODataRequest
