import ODataRequest.Proofs.Query.Primaries

/-! When a canonical text is settled, that is, when reading it again gives a tree with the same
canonical text. Reading again never makes a text longer, so a text of several parts is kept exactly if
each of its parts is; what can change is only the text of a literal under a minus sign. -/

namespace ODataRequest

open Text Unicode

namespace Text

theorem ofNat_digit {c : Char} (h : c.isDigit = true) : ofNat (digitsValue [c]) = [c] := by
  obtain ⟨hlow, hhigh⟩ := isDigit_iff.mp h
  have hvalue : digitsValue [c] = c.toNat - 48 := by
    rw [digitsValue, Nat.ofDigitChars_cons]
    exact Nat.zero_add _
  have hdigit : Nat.digitChar (c.toNat - 48) = c := by
    apply Char.toNat_inj.mp
    rw [Nat.toNat_digitChar_of_lt_ten (by omega)]
    omega
  rw [hvalue, ofNat, Nat.toDigits_of_lt_base (by omega), hdigit]

/-- No text of digits is shorter than the digits of its number, and only they are as short. -/
theorem ofNat_digitsValue {text : Text} (h : isDigits text = true) :
    ofNat (digitsValue text) = text ∨ (ofNat (digitsValue text)).length < text.length := by
  induction text using List.reverseRecOn with
  | nil => cases h
  | append_singleton digits c ih =>
      obtain ⟨-, hall⟩ := Number.isDigits_iff.mp h
      rw [List.all_append, Bool.and_eq_true] at hall
      have hc : c.isDigit = true := by simpa using hall.2
      obtain ⟨hlow, hhigh⟩ := isDigit_iff.mp hc
      by_cases hdigits : digits = []
      · rw [hdigits]
        exact Or.inl (ofNat_digit hc)
      have hvalue : digitsValue (digits ++ [c]) = 10 * digitsValue digits + (c.toNat - 48) := by
        rw [digitsValue, Nat.ofDigitChars_append, Nat.ofDigitChars_cons]
        rfl
      have hlast : Nat.toDigits 10 (c.toNat - 48) = [c] := by
        have := ofNat_digit hc
        rwa [digitsValue, Nat.ofDigitChars_cons, Nat.mul_zero, Nat.zero_add] at this
      by_cases hzero : digitsValue digits = 0
      · rw [hvalue, hzero, Nat.mul_zero, Nat.zero_add, ofNat, hlast, List.length_append]
        have := List.length_pos_iff.mpr hdigits
        exact Or.inr (Nat.lt_add_of_pos_left this)
      · have hsplit : ofNat (digitsValue (digits ++ [c])) = ofNat (digitsValue digits) ++ [c] := by
          rw [hvalue, ofNat, ofNat, ← hlast,
            Nat.toDigits_append_toDigits (by omega) (by omega) (by omega)]
        rw [hsplit, List.length_append, List.length_append]
        rcases ih (Number.isDigits_iff.mpr ⟨hdigits, hall.1⟩) with heq | hlt
        · rw [heq]
          exact Or.inl rfl
        · exact Or.inr (Nat.add_lt_add_right hlt _)

end Text

/-- A text is settled for the literals that stand under a minus sign in it: with literals that keep
their sign it is read back to the same text, and with others to a shorter one if it is read back at
all. -/
structure Settles (negated : List Literal) (before : Text) (after? : Option Text) : Prop where
  kept : (∀ literal ∈ negated, literal.KeepsMinus) → after? = some before
  shorter : ∀ after, after? = some after → after.length ≤ before.length ∧
    (before.length ≤ after.length → ∀ literal ∈ negated, literal.KeepsMinus)

namespace Settles

variable {negated negated' : List Literal} {before before' after : Text} {after? : Option Text}

theorem of_same (h : ∀ literal ∈ negated, literal.KeepsMinus) : Settles negated before (some before) where
  kept := fun _ => rfl
  shorter := by
    intro after hafter
    cases hafter
    exact ⟨Nat.le_refl _, fun _ => h⟩

theorem of_shorter {literal : Literal} (h : ¬literal.KeepsMinus) (hlength : after.length < before.length) :
    Settles [literal] before (some after) where
  kept := fun hkeeps => absurd (hkeeps literal List.mem_cons_self) h
  shorter := by
    intro after hafter
    cases hafter
    exact ⟨Nat.le_of_lt hlength, fun hle => absurd hle (Nat.not_le_of_lt hlength)⟩

theorem of_none {literal : Literal} (h : ¬literal.KeepsMinus) : Settles [literal] before none where
  kept := fun hkeeps => absurd (hkeeps literal List.mem_cons_self) h
  shorter := fun after hafter => by cases hafter

/-- Nothing else is read back to the same text. -/
theorem eq_iff (h : Settles negated before after?) :
    after? = some before ↔ ∀ literal ∈ negated, literal.KeepsMinus :=
  ⟨fun heq => (h.shorter before heq).2 (Nat.le_refl _), h.kept⟩

variable {α β γ : Type} {render : α → Text} {render' : β → Text} {write : γ → Text}
  {first? : Option α} {second? : Option β}

/-- A text inside of another one. -/
theorem wrap {write : α → Text} {left right : Text} (h : Settles negated before (first?.map render))
    (hwrite : ∀ value, first? = some value → write value = left ++ render value ++ right) :
    Settles negated (left ++ before ++ right) (first?.map write) := by
  cases first? with
  | none =>
      refine ⟨fun hkeeps => ?_, fun after hafter => by cases hafter⟩
      have := h.kept hkeeps
      cases this
  | some value =>
      have htext := hwrite value rfl
      constructor
      · intro hkeeps
        have hbefore : render value = before := Option.some.inj (h.kept hkeeps)
        rw [← hbefore, ← htext]
        rfl
      · intro after hafter
        cases hafter
        obtain ⟨hle, hkeeps⟩ := h.shorter (render value) rfl
        rw [htext]
        simp only [List.length_append]
        exact ⟨by omega, fun hlength => hkeeps (by omega)⟩

theorem parentheses {write : α → Text} {left : Text} (h : Settles negated before (first?.map render))
    (hwrite : ∀ value, first? = some value → write value = left ++ parenthesized (render value)) :
    Settles negated (left ++ parenthesized before) (first?.map write) := by
  have htext : left ++ parenthesized before = (left ++ ['(']) ++ before ++ [')'] := by
    simp [parenthesized]
  rw [htext]
  refine h.wrap fun value hvalue => ?_
  rw [hwrite value hvalue]
  simp [parenthesized]

/-- Two texts beside each other. -/
theorem pair {finish : α → β → γ} {middle : Text} (h : Settles negated before (first?.map render))
    (h' : Settles negated' before' (second?.map render'))
    (hwrite : ∀ value value', first? = some value → second? = some value' →
      write (finish value value') = render value ++ middle ++ render' value') :
    Settles (negated ++ negated') (before ++ middle ++ before')
      ((first?.bind fun value => second?.map fun value' => finish value value').map write) := by
  cases first? with
  | none =>
      refine ⟨fun hkeeps => ?_, fun after hafter => by cases hafter⟩
      have := h.kept (List.forall_mem_append.mp hkeeps).1
      cases this
  | some value =>
    cases second? with
    | none =>
        refine ⟨fun hkeeps => ?_, fun after hafter => by cases hafter⟩
        have := h'.kept (List.forall_mem_append.mp hkeeps).2
        cases this
    | some value' =>
        have htext := hwrite value value' rfl rfl
        constructor
        · intro hkeeps
          rw [List.forall_mem_append] at hkeeps
          have hbefore : render value = before := Option.some.inj (h.kept hkeeps.1)
          have hbefore' : render' value' = before' := Option.some.inj (h'.kept hkeeps.2)
          rw [← hbefore, ← hbefore', ← htext]
          rfl
        · intro after hafter
          cases hafter
          obtain ⟨hle, hkeeps⟩ := h.shorter (render value) rfl
          obtain ⟨hle', hkeeps'⟩ := h'.shorter (render' value') rfl
          rw [htext, List.forall_mem_append]
          simp only [List.length_append]
          exact ⟨by omega, fun hlength => ⟨hkeeps (by omega), hkeeps' (by omega)⟩⟩

end Settles

/-! ### Literals under a minus sign -/

namespace Literal

variable {text : Text}

theorem head?_ofNat (n : Nat) : (ofNat n).head? ≠ some '-' := by
  intro hhead
  obtain ⟨others, hothers⟩ := List.head?_eq_some_iff.mp hhead
  have hdigits := isDigits_ofNat n
  rw [hothers] at hdigits
  cases hdigits

theorem not_isDigits_of_minus (h : text.head? = some '-') : isDigits text = false := by
  obtain ⟨others, rfl⟩ := List.head?_eq_some_iff.mp h
  rfl

theorem unsigned_eq_self (h : text.head? ≠ some '-') : Number.unsigned text = text := by
  rw [Number.unsigned]
  rintro others rfl
  exact h rfl

theorem integerValue_eq_digitsValue (h : text.head? ≠ some '-') :
    Number.integerValue text = digitsValue text := by
  rw [Number.integerValue]
  rintro others rfl
  exact h rfl

/-- The negative of a number that is written without a sign. -/
theorem render_ofNumber_minus {n : Nat} (h : (n : Int) ≤ Number.maxInteger) :
    (ofNumber ('-' :: ofNat n)).render = ofInt (-n) := by
  have hinteger : Number.isInteger ('-' :: ofNat n) = true := isDigits_ofNat n
  have hvalue : Number.integerValue ('-' :: ofNat n) = -(n : Int) := by
    rw [Number.integerValue, digitsValue_ofNat]
  have hmin : Number.minInteger = -Number.maxInteger - 1 := rfl
  have hmax : Number.maxInteger = 9223372036854775807 := rfl
  have hrange : Number.minInteger ≤ -(n : Int) ∧ -(n : Int) ≤ Number.maxInteger := by
    constructor <;> omega
  rw [ofNumber, if_pos hinteger, ofIntegerText, hvalue, if_pos hrange, render]

/-- The only number outside of 64 bits whose negative is inside. -/
theorem ofNumber_minus_decimal (h : ofNumber text = .decimal text) (hsign : text.head? ≠ some '-') :
    ofNumber ('-' :: text) =
      if isDigits text = true ∧ digitsValue text = 2 ^ 63 then .integer Number.minInteger
      else .decimal ('-' :: text) := by
  have hmin : Number.minInteger = -9223372036854775808 := rfl
  have hmax : Number.maxInteger = 9223372036854775807 := rfl
  have hunsigned := unsigned_eq_self hsign
  by_cases hdigits : isDigits text = true
  · have hinteger : Number.isInteger text = true := by rwa [Number.isInteger, hunsigned]
    have hinteger' : Number.isInteger ('-' :: text) = true := hdigits
    have hvalue : Number.integerValue ('-' :: text) = -(digitsValue text : Int) := rfl
    rw [ofNumber, if_pos hinteger, ofIntegerText, integerValue_eq_digitsValue hsign] at h
    have houtside : ¬(Number.minInteger ≤ (digitsValue text : Int) ∧
        (digitsValue text : Int) ≤ Number.maxInteger) := by
      intro hrange
      rw [if_pos hrange] at h
      cases h
    rw [ofNumber, if_pos hinteger', ofIntegerText, hvalue]
    by_cases hleast : digitsValue text = 2 ^ 63
    · have hrange : Number.minInteger ≤ -(digitsValue text : Int) ∧
          -(digitsValue text : Int) ≤ Number.maxInteger := by omega
      rw [if_pos hrange, if_pos ⟨hdigits, hleast⟩, hleast]
      rfl
    · have hrange : ¬(Number.minInteger ≤ -(digitsValue text : Int) ∧
          -(digitsValue text : Int) ≤ Number.maxInteger) := by omega
      rw [if_neg hrange, if_neg fun hboth => hleast hboth.2]
  · have hinteger : ¬Number.isInteger ('-' :: text) = true := hdigits
    rw [ofNumber, if_neg hinteger, if_neg (fun hboth => hdigits hboth.1)]

theorem rereadNegated_of_sign {value : Literal} (hnumeric : value.isNumeric = true)
    (hsign : value.render.head? = some '-') :
    value.rereadNegated.map Expression.render = some ('-' :: value.render) := by
  rw [rereadNegated, if_pos hnumeric, if_pos hsign]
  rfl

theorem rereadNegated_of_unsigned (value : Literal) (hnumeric : value.isNumeric = true)
    (hsign : value.render.head? ≠ some '-') :
    value.rereadNegated.map Expression.render = some (ofNumber ('-' :: value.render)).render := by
  rw [rereadNegated, if_pos hnumeric, if_neg hsign]
  rfl

theorem settles_natural {n : Nat} (h : (n : Int) ≤ Number.maxInteger) :
    Settles [.integer n] ('-' :: ofNat n)
      ((rereadNegated (.integer n)).map Expression.render) := by
  rw [rereadNegated_of_unsigned (.integer n) rfl (head?_ofNat n)]
  show Settles _ _ (some (ofNumber ('-' :: ofNat n)).render)
  rw [render_ofNumber_minus h]
  cases n with
  | zero => exact .of_shorter (fun hkeeps => hkeeps rfl) (by decide)
  | succ n =>
      refine .of_same fun literal hmem => ?_
      cases List.mem_singleton.mp hmem
      exact (Int.natCast_ne_zero.mpr (Nat.succ_ne_zero n) : ((n + 1 : Nat) : Int) ≠ 0)

theorem settles_decimal {text : Text} (h : ofNumber text = .decimal text)
    (hsign : text.head? ≠ some '-') :
    Settles [.decimal text] ('-' :: text)
      ((rereadNegated (.decimal text)).map Expression.render) := by
  rw [rereadNegated_of_unsigned (.decimal text) rfl hsign]
  show Settles _ _ (some (ofNumber ('-' :: text)).render)
  rw [ofNumber_minus_decimal h hsign]
  by_cases hleast : isDigits text = true ∧ digitsValue text = 2 ^ 63
  · rw [if_pos hleast]
    have hdigits := ofNat_digitsValue hleast.1
    rw [hleast.2] at hdigits
    show Settles _ _ (some ('-' :: ofNat (2 ^ 63)))
    rcases hdigits with heq | hlt
    · rw [← heq]
      refine .of_same fun literal hmem => ?_
      cases List.mem_singleton.mp hmem
      exact fun _ => rfl
    · refine .of_shorter (fun hkeeps => ?_) (Nat.succ_lt_succ hlt)
      rw [← hkeeps hleast] at hlt
      exact Nat.lt_irrefl _ hlt
  · rw [if_neg hleast]
    refine .of_same fun literal hmem => ?_
    cases List.mem_singleton.mp hmem
    exact fun hboth => absurd hboth hleast

/-- A literal under a minus sign is read back to the same text exactly if it keeps the sign. -/
theorem settles_negated {value : Literal} (h : value.WellFormed) :
    Settles [value] ('-' :: value.render) (value.rereadNegated.map Expression.render) := by
  by_cases hnumeric : value.isNumeric = true
  · by_cases hsign : value.render.head? = some '-'
    · rw [rereadNegated_of_sign hnumeric hsign]
      refine .of_same fun literal hmem => ?_
      cases List.mem_singleton.mp hmem
      cases value with
      | integer value =>
          rintro rfl
          cases hsign
      | decimal text =>
          rintro ⟨hdigits, -⟩
          have hnot : isDigits text = false := not_isDigits_of_minus hsign
          rw [hnot] at hdigits
          cases hdigits
      | _ => cases hnumeric
    · cases value with
      | integer value =>
          cases value with
          | ofNat n => exact settles_natural h.2
          | negSucc n => exact absurd rfl hsign
      | decimal text => exact settles_decimal h.2 hsign
      | _ => cases hnumeric
  · have hreread : value.rereadNegated = none := if_neg hnumeric
    rw [hreread]
    refine .of_none fun hkeeps => ?_
    cases value with
    | integer value => exact hnumeric rfl
    | decimal text => exact hnumeric rfl
    | _ => exact hkeeps

end Literal

/-! ### Lists -/

section Lists

variable {α : Type} {render : α → Text} {reread : α → Option α} {negatedOf : α → List Literal}
  {items : List α}

theorem settles_others (separator : Char)
    (h : ∀ item ∈ items, Settles (negatedOf item) (render item) ((reread item).map render)) :
    Settles (items.flatMap negatedOf) (items.flatMap fun item => separator :: render item)
      ((rereadEach reread items).map fun items => items.flatMap fun item => separator :: render item) := by
  induction items with
  | nil => exact .of_same (by simp)
  | cons item others ih =>
      have hfirst : Settles (negatedOf item) ([separator] ++ render item ++ [])
          ((reread item).map fun item => separator :: render item) :=
        (h item List.mem_cons_self).wrap fun value _ => by simp
      have hothers := ih fun other hmem => h other (List.mem_cons_of_mem _ hmem)
      have htext : ((item :: others).flatMap fun item => separator :: render item) =
          ([separator] ++ render item ++ []) ++ [] ++
            others.flatMap fun item => separator :: render item := by
        simp
      rw [List.flatMap_cons, htext, rereadEach]
      exact hfirst.pair hothers fun value values _ _ => by simp

/-- A list is settled if its items are. -/
theorem settles_join (separator : Char)
    (h : ∀ item ∈ items, Settles (negatedOf item) (render item) ((reread item).map render)) :
    Settles (items.flatMap negatedOf) (joinTexts separator (items.map render))
      ((rereadEach reread items).map fun items => joinTexts separator (items.map render)) := by
  cases items with
  | nil => exact .of_same (by simp)
  | cons item others =>
      have hothers := settles_others separator fun other hmem => h other (List.mem_cons_of_mem _ hmem)
      have htext : joinTexts separator ((item :: others).map render) =
          render item ++ [] ++ others.flatMap fun item => separator :: render item := by
        rw [List.map_cons, joinTexts_cons, List.flatMap_map, List.append_nil]
      rw [List.flatMap_cons, htext, rereadEach]
      refine (h item List.mem_cons_self).pair hothers fun value values _ _ => ?_
      rw [List.map_cons, joinTexts_cons, List.flatMap_map, List.append_nil]

end Lists

/-! ### Binding strengths -/

/-- Reading again turns at most a sign before a number into the number. -/
theorem Expression.precedence_of_reread {expression found : Expression}
    (h : expression.reread = some found) :
    min unaryPrecedence found.precedence = min unaryPrecedence expression.precedence := by
  cases expression with
  | literal | access | rangeVariable | count =>
      cases h
      rfl
  | binary op left right =>
      rw [Expression.reread, Option.bind_eq_some_iff] at h
      obtain ⟨left', -, h⟩ := h
      obtain ⟨right', -, rfl⟩ := Option.map_eq_some_iff.mp h
      rfl
  | unary op operand =>
      by_cases hliteral : ∃ value, op = .negate ∧ operand = .literal value
      · obtain ⟨value, rfl, rfl⟩ := hliteral
        rw [Expression.reread, Literal.rereadNegated] at h
        split at h
        · split at h
          · cases h
            rfl
          · cases h
            rfl
        · cases h
      · rw [Expression.reread] at h
        · obtain ⟨operand', -, rfl⟩ := Option.map_eq_some_iff.mp h
          rfl
        · exact fun value hop hoperand => hliteral ⟨value, hop, hoperand⟩
  | subquery | lambda | call =>
      rw [Expression.reread] at h
      obtain ⟨inside, -, rfl⟩ := Option.map_eq_some_iff.mp h
      rfl

theorem lt_precedence_of_reread {expression found : Expression} (h : expression.reread = some found)
    {demanded : Nat} (hdemanded : demanded ≤ unaryPrecedence) :
    found.precedence < demanded ↔ expression.precedence < demanded := by
  have := Expression.precedence_of_reread h
  omega

theorem renderOperand_reread {operand found : Expression} (h : operand.reread = some found)
    {demanded : Nat} (hdemanded : demanded ≤ unaryPrecedence) (text : Text) :
    renderOperand demanded found.precedence text = renderOperand demanded operand.precedence text := by
  simp only [renderOperand, lt_precedence_of_reread h hdemanded]

/-! ### The induction -/

/-- An operand under a sign. -/
theorem settles_unary {op : UnaryOperator} {operand : Expression} {scopes : Scopes} {levels : Nat}
    (hfits : operand.FitsAt unaryPrecedence scopes levels)
    (h : Settles operand.negatedLiterals
      (renderOperand unaryPrecedence operand.precedence operand.render)
      (operand.reread.map fun operand =>
        renderOperand unaryPrecedence operand.precedence operand.render)) :
    Settles (Expression.unary op operand).negatedLiterals (Expression.unary op operand).render
      ((Expression.unary op operand).reread.map Expression.render) := by
  by_cases hliteral : ∃ value, op = .negate ∧ operand = .literal value
  · obtain ⟨value, rfl, rfl⟩ := hliteral
    cases hfits with
    | bare _ hfits =>
        cases hfits with
        | literal hvalue => exact Literal.settles_negated hvalue
    | group hprecedence _ => exact absurd hprecedence (Nat.not_lt_of_le (by decide : 6 ≤ 7))
  · have hnegated : (Expression.unary op operand).negatedLiterals = operand.negatedLiterals := by
      rw [Expression.negatedLiterals]
      exact fun value hop hoperand => hliteral ⟨value, hop, hoperand⟩
    have hreread : (Expression.unary op operand).reread = operand.reread.map (.unary op) := by
      rw [Expression.reread]
      exact fun value hop hoperand => hliteral ⟨value, hop, hoperand⟩
    have htext : (Expression.unary op operand).render =
        op.mark ++ renderOperand unaryPrecedence operand.precedence operand.render ++ [] := by
      rw [Expression.render, List.append_nil]
    rw [hnegated, hreread, Option.map_map, htext]
    refine h.wrap fun value _ => ?_
    rw [Function.comp, Expression.render, List.append_nil]

theorem settles_arguments {arguments : List Expression}
    (h : ∀ argument ∈ arguments, Settles argument.negatedLiterals argument.render
      (argument.reread.map Expression.render)) (function : Text) :
    Settles (Expression.call function arguments).negatedLiterals
      (Expression.call function arguments).render
      ((Expression.call function arguments).reread.map Expression.render) := by
  rw [Expression.negatedLiterals, Expression.negatedLiteralsAll_eq_flatMap, Expression.render,
    Expression.renderAll_eq_map, Expression.reread, Expression.rereadAll_eq_rereadEach,
    Option.map_map]
  refine (settles_join ',' h).parentheses fun arguments _ => ?_
  rw [Function.comp, Expression.render, Expression.renderAll_eq_map]

theorem settles_orderBy {items : List OrderByItem}
    (h : ∀ item ∈ items, Settles item.expression.negatedLiterals item.expression.render
      (item.expression.reread.map Expression.render)) :
    Settles (OptionValue.orderBy items).negatedLiterals (OptionValue.orderBy items).render
      ((OptionValue.orderBy items).reread.map OptionValue.render) := by
  have hitem : ∀ item ∈ items, Settles item.negatedLiterals item.render
      (item.reread.map OrderByItem.render) := by
    rintro ⟨key, direction⟩ hmem
    rw [OrderByItem.negatedLiterals, OrderByItem.render, OrderByItem.reread, Option.map_map,
      ← List.nil_append key.render]
    refine (h _ hmem).wrap fun key _ => ?_
    rw [Function.comp, OrderByItem.render]
    rfl
  rw [OptionValue.negatedLiterals, OrderByItem.negatedLiteralsAll_eq_flatMap, OptionValue.render,
    OrderByItem.renderAll_eq_map, OptionValue.reread, OrderByItem.rereadAll_eq_rereadEach,
    Option.map_map]
  have hrender : OptionValue.render ∘ .orderBy =
      fun items => joinTexts ',' (items.map OrderByItem.render) := by
    funext items
    rw [Function.comp, OptionValue.render, OrderByItem.renderAll_eq_map]
  rw [hrender]
  exact settles_join ',' hitem

theorem settles_expand {items : List ExpandItem}
    (h : ∀ item ∈ items, Settles item.negatedLiterals item.render
      (item.reread.map ExpandItem.render)) :
    Settles (OptionValue.expand items).negatedLiterals (OptionValue.expand items).render
      ((OptionValue.expand items).reread.map OptionValue.render) := by
  have hrender : OptionValue.render ∘ .expand =
      fun items => joinTexts ',' (items.map ExpandItem.render) := by
    funext items
    rw [Function.comp, OptionValue.render, ExpandItem.renderAll_eq_map]
  rw [OptionValue.negatedLiterals, ExpandItem.negatedLiteralsAll_eq_flatMap, OptionValue.render,
    ExpandItem.renderAll_eq_map, OptionValue.reread, ExpandItem.rereadAll_eq_rereadEach,
    Option.map_map, hrender]
  exact settles_join ',' h

theorem settles_options {options : List ParsedOption}
    (h : ∀ option ∈ options, Settles option.value.negatedLiterals option.value.render
      (option.value.reread.map OptionValue.render)) :
    Settles (ParsedOption.negatedLiteralsAll options) (joinTexts ';' (ParsedOption.renderAll options))
      ((ParsedOption.rereadAll options).map fun options =>
        joinTexts ';' (ParsedOption.renderAll options)) := by
  have hoption : ∀ option ∈ options, Settles option.negatedLiterals option.render
      (option.reread.map ParsedOption.render) := by
    rintro ⟨name, value⟩ hmem
    have htext : name.name ++ '=' :: value.render = (name.name ++ ['=']) ++ value.render ++ [] := by
      simp
    rw [ParsedOption.negatedLiterals, ParsedOption.render, ParsedOption.reread, Option.map_map, htext]
    exact (h _ hmem).wrap fun value _ => by simp [ParsedOption.render]
  simp only [ParsedOption.renderAll_eq_map]
  rw [ParsedOption.negatedLiteralsAll_eq_flatMap, ParsedOption.rereadAll_eq_rereadEach]
  exact settles_join ';' hoption

theorem settles_expandItem {target : ExpandTarget} {options : List ParsedOption}
    (hnonempty : options.isEmpty = false)
    (h : Settles (ParsedOption.negatedLiteralsAll options)
      (joinTexts ';' (ParsedOption.renderAll options))
      ((ParsedOption.rereadAll options).map fun options =>
        joinTexts ';' (ParsedOption.renderAll options))) :
    Settles (ExpandItem.mk target options).negatedLiterals (ExpandItem.mk target options).render
      ((ExpandItem.mk target options).reread.map ExpandItem.render) := by
  rw [ExpandItem.negatedLiterals, ExpandItem.render, ExpandItem.reread, Option.map_map, hnonempty,
    if_neg Bool.false_ne_true]
  refine h.parentheses fun found hfound => ?_
  rw [ParsedOption.rereadAll_eq_rereadEach] at hfound
  rw [Function.comp, ExpandItem.render, isEmpty_rereadEach hfound, hnonempty,
    if_neg Bool.false_ne_true]

mutual

/-- The canonical text of an expression is settled for the literals under its signs. -/
theorem Expression.Fits.settles : ∀ {scopes : Scopes} {levels : Nat} {expression : Expression},
    expression.Fits scopes levels →
      Settles expression.negatedLiterals expression.render (expression.reread.map Expression.render)
  | _, _, _, .literal _ => .of_same (by simp [Expression.negatedLiterals])
  | _, _, _, .access _ _ => .of_same (by simp [Expression.negatedLiterals])
  | _, _, _, .rangeVariable _ => .of_same (by simp [Expression.negatedLiterals])
  | _, _, .binary op left right, .binary hleft hright => by
      have hop : op.precedence ≤ 5 := (Grammar.precedence_bounds op).2
      have hright' := hright.settles (Nat.succ_le_succ hop)
      have htext : (Expression.binary op left right).render =
          renderOperand op.precedence left.precedence left.render ++ (' ' :: op.keyword ++ [' ']) ++
            renderOperand (op.precedence + 1) right.precedence right.render := by
        simp [Expression.render]
      rw [Expression.negatedLiterals, htext, Expression.reread]
      refine (hleft.settles (Nat.le_succ_of_le hop)).pair hright' fun left right _ _ => ?_
      simp [Expression.render]
  | _, _, _, .unary h => settles_unary h (h.settles (Nat.le_refl _))
  | _, _, _, .count _ => .of_same (by simp [Expression.negatedLiterals])
  | _, _, _, .subquery _ hoptions => by
      rw [Expression.negatedLiterals, Expression.render, Expression.reread, Option.map_map]
      exact hoptions.settles.parentheses fun options _ => by rw [Function.comp, Expression.render]
  | _, _, _, .nonempty _ =>
    .of_same (by simp [Expression.negatedLiterals, Expression.negatedLiteralsBody])
  | _, _, .lambda kind route (some binder) (some body), .lambda _ _ _ hbody => by
      have htext : binder ++ ':' :: body.render = (binder ++ [':']) ++ body.render ++ [] := by simp
      have hinside : Settles body.negatedLiterals (binder ++ ':' :: body.render)
          (body.reread.map fun body => binder ++ ':' :: body.render) := by
        rw [htext]
        exact hbody.settles.wrap fun body _ => by simp
      rw [Expression.negatedLiterals, Expression.negatedLiteralsBody, Expression.render,
        Expression.renderBody, Expression.reread, Expression.rereadBody, Option.map_map, Option.map_map]
      refine hinside.parentheses fun body _ => ?_
      rw [Function.comp, Function.comp, Expression.render, Expression.renderBody]
  | _, _, _, .call _ _ harguments =>
    settles_arguments (fun argument hmem => (harguments argument hmem).settles) _

/-- An operand is settled with the parentheses that its place demands. -/
theorem Expression.FitsAt.settles : ∀ {demanded : Nat} {scopes : Scopes} {levels : Nat}
    {operand : Expression}, operand.FitsAt demanded scopes levels → demanded ≤ unaryPrecedence →
      Settles operand.negatedLiterals (renderOperand demanded operand.precedence operand.render)
        (operand.reread.map fun operand =>
          renderOperand demanded operand.precedence operand.render)
  | demanded, _, _, operand, .bare hprecedence h, hdemanded => by
      have hsame : (operand.reread.map fun operand =>
          renderOperand demanded operand.precedence operand.render) =
            operand.reread.map Expression.render := by
        refine Option.map_congr fun found hfound => ?_
        rw [renderOperand_reread hfound hdemanded, renderOperand, if_neg (Nat.not_lt_of_le hprecedence)]
      rw [hsame, renderOperand, if_neg (Nat.not_lt_of_le hprecedence)]
      exact h.settles
  | demanded, _, _, operand, .group hprecedence h, hdemanded => by
      rw [renderOperand, if_pos hprecedence, ← List.nil_append (parenthesized operand.render)]
      refine h.settles.parentheses fun found hfound => ?_
      rw [renderOperand_reread hfound hdemanded, renderOperand, if_pos hprecedence, List.nil_append]

theorem OptionValue.Fits.settles : ∀ {scopes : Scopes} {levels : Nat} {option : SystemOption}
    {value : OptionValue}, value.Fits scopes levels option →
      Settles value.negatedLiterals value.render (value.reread.map OptionValue.render)
  | _, _, _, _, .filter h => by
      rw [OptionValue.negatedLiterals, OptionValue.render, OptionValue.reread, Option.map_map]
      exact h.settles
  | _, _, _, _, .orderBy _ h => settles_orderBy fun item hmem => (h item hmem).settles
  | _, _, _, _, .select _ _ => .of_same (by simp [OptionValue.negatedLiterals])
  | _, _, _, _, .expand _ h => settles_expand fun item hmem => (h item hmem).settles
  | _, _, _, _, .plain h => by
      rw [OptionValue.reread_of_negatedLiterals_eq_nil h.negatedLiterals_eq_nil,
        h.negatedLiterals_eq_nil]
      exact .of_same (by simp)

theorem ParsedOption.AllFit.settles : ∀ {kind : OptionListKind} {scopes : Scopes} {levels : Nat}
    {options : List ParsedOption}, ParsedOption.AllFit kind scopes levels options →
      Settles (ParsedOption.negatedLiteralsAll options) (joinTexts ';' (ParsedOption.renderAll options))
        ((ParsedOption.rereadAll options).map fun options =>
          joinTexts ';' (ParsedOption.renderAll options))
  | _, _, _, _, .mk _ _ _ h => settles_options fun option hmem => (h option hmem).settles

theorem ExpandItem.Fits.settles : ∀ {scopes : Scopes} {levels : Nat} {item : ExpandItem},
    item.Fits scopes levels →
      Settles item.negatedLiterals item.render (item.reread.map ExpandItem.render)
  | _, _, _, .bare _ =>
    .of_same (by simp [ExpandItem.negatedLiterals, ParsedOption.negatedLiteralsAll])
  | _, _, _, .options _ hoptions => settles_expandItem hoptions.isEmpty_eq_false hoptions.settles

end

end ODataRequest
