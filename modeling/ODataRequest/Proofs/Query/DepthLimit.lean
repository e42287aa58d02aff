import ODataRequest.Query.Grammar

/-! What the depth limit does to the reading of a text. A result approximates another one if it is the
fault of nesting too deep or the same result. Sequencing keeps this order, and so does every reader of
the grammar, so that a level over a better reader gives a better reader. Main statement: a lower limit
either rejects a value for its depth or changes nothing about the result. -/

namespace ODataRequest

open Text Reader

/-- A result that more levels can only change if it is the fault of nesting too deep. -/
def Approximates {α : Type} (result result' : Except Fault α) : Prop :=
  result = .error .tooDeep ∨ result = result'

namespace Approximates

variable {α β : Type}

theorem refl (result : Except Fault α) : Approximates result result :=
  Or.inr rfl

theorem tooDeep (result : Except Fault α) : Approximates (.error .tooDeep) result :=
  Or.inl rfl

theorem bind {result result' : Except Fault α} {next next' : α → Except Fault β}
    (h : Approximates result result') (hnext : ∀ value, Approximates (next value) (next' value)) :
    Approximates (result >>= next) (result' >>= next') := by
  rcases h with rfl | rfl
  · exact tooDeep _
  · cases result with
    | error e => exact refl _
    | ok value => exact hnext value

theorem map {result result' : Except Fault α} (h : Approximates result result') (f : α → β) :
    Approximates (result.map f) (result'.map f) := by
  rcases h with rfl | rfl
  · exact tooDeep _
  · exact refl _

/-- What begins with the same reading differs at most in what follows it. -/
theorem after (result : Except Fault α) {next next' : α → Except Fault β}
    (hnext : ∀ value, Approximates (next value) (next' value)) :
    Approximates (result >>= next) (result >>= next') :=
  (refl result).bind hnext

end Approximates

namespace Reader

variable {α : Type} {item item' : Reader α}

theorem moreItems_approximates (h : ∀ text, Approximates (item text) (item' text)) (fuel : Nat)
    (text : Text) : Approximates (moreItems item fuel text) (moreItems item' fuel text) := by
  induction fuel generalizing text with
  | zero => exact .refl _
  | succ fuel ih =>
      refine .after _ fun comma => ?_
      cases comma with
      | none => exact .refl _
      | some rest => exact (h rest).bind fun (_, rest) => (ih rest).bind fun _ => .refl _

theorem commaList_approximates (h : ∀ text, Approximates (item text) (item' text)) (text : Text) :
    Approximates (commaList item text) (commaList item' text) :=
  (h text).bind fun (_, rest) => (moreItems_approximates h rest.length rest).bind fun _ => .refl _

end Reader

namespace Grammar

section Operators

variable {operand operand' : Reader Expression}
  (hoperand : ∀ text, Approximates (operand text) (operand' text))

include hoperand

theorem moreOperands_approximates (operators : List BinaryOperator) (fuel : Nat) (left : Expression)
    (text : Text) : Approximates (moreOperands operators operand fuel left text)
      (moreOperands operators operand' fuel left text) := by
  induction fuel generalizing left text with
  | zero => exact .refl _
  | succ fuel ih =>
      refine .after _ fun found => ?_
      cases found with
      | none => exact .refl _
      | some found => exact (hoperand found.2).bind fun (right, rest) => ih _ rest

theorem leftAssociated_approximates (operators : List BinaryOperator) (text : Text) :
    Approximates (leftAssociated operators operand text)
      (leftAssociated operators operand' text) :=
  (hoperand text).bind fun (left, rest) =>
    moreOperands_approximates hoperand operators rest.length left rest

end Operators

section Levels

variable {inner inner' : GoalReader}
  (hinner : ∀ goal scopes text, Approximates (inner goal scopes text) (inner' goal scopes text))
  (scopes : Scopes)

include hinner

/-! ### Paths -/

theorem lambda_approximates (kind : LambdaKind) (collection : PropertyAccess) (text : Text) :
    Approximates (lambda inner scopes kind collection text)
      (lambda inner' scopes kind collection text) := by
  refine .after _ fun close => ?_
  cases close with
  | some rest => exact .refl _
  | none =>
      refine .after _ fun (binder, start, rest) => ?_
      dsimp only
      split
      · exact .refl _
      · refine .after _ fun rest => ?_
        exact (hinner .expression (.lambda binder :: scopes) rest).bind fun _ => .refl _

theorem counted_approximates (collection : PropertyAccess) (text : Text) :
    Approximates (counted inner scopes collection text) (counted inner' scopes collection text) := by
  refine .after _ fun opened => ?_
  cases opened with
  | none => exact .refl _
  | some rest => exact (hinner (.options .count) (.subquery :: scopes) rest).bind fun _ => .refl _

theorem morePath_approximates (qualifier : Option Text) (fuel : Nat) (path : List Text)
    (text : Text) : Approximates (morePath inner scopes qualifier fuel path text)
      (morePath inner' scopes qualifier fuel path text) := by
  induction fuel using Nat.strongRecOn generalizing path text with
  | ind fuel ih =>
      rw [morePath.eq_def, morePath.eq_def]
      refine .after _ fun slash => ?_
      cases slash with
      | none => exact .refl _
      | some after =>
          refine .after _ fun next => ?_
          split
          · rename_i word start rest
            split
            · exact counted_approximates hinner scopes _ rest
            · refine .after _ fun opened => ?_
              cases opened with
              | some opened => exact lambda_approximates hinner scopes _ _ opened.2
              | none =>
                  refine .after _ fun _ => ?_
                  cases fuel with
                  | zero => exact .refl _
                  | succ fuel => exact ih fuel (Nat.lt_succ_self fuel) _ rest
          · exact .refl _

theorem pathExpression_approximates (head start rest : Text) :
    Approximates (pathExpression inner scopes head start rest)
      (pathExpression inner' scopes head start rest) := by
  unfold pathExpression
  split
  · exact morePath_approximates hinner scopes _ _ _ rest
  · exact .after _ fun _ => morePath_approximates hinner scopes _ _ _ rest

/-! ### Operands -/

theorem call_approximates (function start rest : Text) :
    Approximates (call inner scopes function start rest)
      (call inner' scopes function start rest) := by
  unfold call
  split
  · exact .refl _
  · exact (hinner .arguments scopes rest).bind fun _ => .refl _

theorem primary_approximates (text : Text) :
    Approximates (primary inner scopes text) (primary inner' scopes text) := by
  refine .after _ fun next => ?_
  split
  · exact .refl _
  · exact (hinner .expression scopes _).bind fun _ => .refl _
  · split
    · exact .refl _
    · refine .after _ fun opened => ?_
      cases opened with
      | some rest => exact call_approximates hinner scopes _ _ rest
      | none => exact pathExpression_approximates hinner scopes _ _ _
  · exact .refl _

theorem operand_approximates (text : Text) :
    Approximates (operand inner scopes text) (operand inner' scopes text) := by
  refine .after _ fun negated => ?_
  cases negated with
  | some rest => exact (hinner .operand scopes rest).bind fun _ => .refl _
  | none =>
      refine .after _ fun minus => ?_
      cases minus with
      | some rest => exact .after _ fun _ => (hinner .operand scopes rest).bind fun _ => .refl _
      | none => exact primary_approximates hinner scopes text

theorem expression_approximates (text : Text) :
    Approximates (expression inner scopes text) (expression inner' scopes text) := by
  unfold expression
  iterate 5 refine leftAssociated_approximates (fun text => ?_) _ text
  exact operand_approximates hinner scopes _

theorem arguments_approximates (text : Text) :
    Approximates (arguments inner scopes text) (arguments inner' scopes text) := by
  refine .after _ fun close => ?_
  cases close with
  | some _ => exact .refl _
  | none => exact commaList_approximates (expression_approximates hinner scopes) text

/-! ### Values of options -/

theorem orderByItem_approximates (text : Text) :
    Approximates (orderByItem inner scopes text) (orderByItem inner' scopes text) :=
  (expression_approximates hinner scopes text).bind fun _ => .refl _

theorem expandItem_approximates (text : Text) :
    Approximates (expandItem inner scopes text) (expandItem inner' scopes text) := by
  refine .after _ fun (target, rest) => ?_
  refine .after _ fun opened => ?_
  cases opened with
  | none => exact .refl _
  | some rest => exact (hinner (.options .expand) (.expand :: scopes) rest).bind fun _ => .refl _

/-- Only the values that are written in the expression grammar depend on the levels. -/
theorem optionValue_approximates (option : SystemOption) (text : Text) :
    Approximates (optionValue inner scopes option text)
      (optionValue inner' scopes option text) := by
  cases option with
  | filter => exact (expression_approximates hinner scopes text).map _
  | orderBy =>
      exact (commaList_approximates (orderByItem_approximates hinner scopes) text).map _
  | expand => exact (commaList_approximates (expandItem_approximates hinner scopes) text).map _
  | _ => exact .refl _

theorem optionList_approximates (kind : OptionListKind) (fuel : Nat) (seen : List SystemOption)
    (text : Text) : Approximates (optionList inner scopes kind fuel seen text)
      (optionList inner' scopes kind fuel seen text) := by
  induction fuel using Nat.strongRecOn generalizing seen text with
  | ind fuel ih =>
      rw [optionList.eq_def, optionList.eq_def]
      refine .after _ fun (word, start, rest) => ?_
      refine .after _ fun option => ?_
      refine .after _ fun rest => ?_
      refine (optionValue_approximates hinner scopes option rest).bind fun (value, rest) => ?_
      refine .after _ fun found => ?_
      cases found with
      | none => exact .refl _
      | some after =>
          cases fuel with
          | zero => exact .refl _
          | succ fuel => exact (ih fuel (Nat.lt_succ_self fuel) _ after).bind fun _ => .refl _

/-! ### All levels -/

/-- One level over a reader that approximates another one approximates the level over that. -/
theorem level_approximates (goal : Goal) (text : Text) :
    Approximates (level inner goal scopes text) (level inner' goal scopes text) := by
  cases goal with
  | operand => exact operand_approximates hinner scopes text
  | expression => exact expression_approximates hinner scopes text
  | arguments => exact arguments_approximates hinner scopes text
  | options kind => exact optionList_approximates hinner scopes kind _ _ text

end Levels

/-- Fewer levels read the same, or not deep enough. -/
theorem nested_approximates {depth depth' : Nat} (h : depth ≤ depth') (goal : Goal)
    (scopes : Scopes) (text : Text) :
    Approximates (nested depth goal scopes text) (nested depth' goal scopes text) := by
  induction depth generalizing depth' goal scopes text with
  | zero => exact .tooDeep _
  | succ depth ih =>
      obtain ⟨depth', rfl⟩ := Nat.exists_eq_add_one_of_ne_zero (Nat.ne_zero_of_lt h)
      exact level_approximates (ih (Nat.le_of_succ_le_succ h)) scopes goal text

end Grammar

/-- The fault of nesting too deep is the only one that names the limit. -/
theorem Approximates.ofFault {α : Type} {result result' : Except Fault α}
    (h : Approximates result result') (option source : Text) (maxDepth maxDepth' : Nat) :
    result.mapError (QueryError.ofFault option source maxDepth) = .error (.tooComplex maxDepth) ∨
      result.mapError (QueryError.ofFault option source maxDepth) =
        result'.mapError (QueryError.ofFault option source maxDepth') := by
  rcases h with rfl | rfl
  · exact Or.inl rfl
  · cases result with
    | ok value => exact Or.inr rfl
    | error fault =>
        cases fault with
        | tooDeep => exact Or.inl rfl
        | unexpected expected found unread => exact Or.inr rfl
        | literal e => exact Or.inr rfl

/-- A lower limit rejects a value for its depth or gives the same result. -/
theorem OptionValue.parse_of_le {maxDepth maxDepth' : Nat} (h : maxDepth ≤ maxDepth')
    (option : SystemOption) (text : Text) :
    OptionValue.parse option text maxDepth = .error (.tooComplex maxDepth) ∨
      OptionValue.parse option text maxDepth = OptionValue.parse option text maxDepth' := by
  refine Approximates.ofFault ?_ option.name text maxDepth maxDepth'
  exact (Grammar.optionValue_approximates (Grammar.nested_approximates h) [] option text).bind
    fun _ => .refl _

/-- What a limit accepts, a higher one accepts as the same value. -/
theorem OptionValue.parse_mono {maxDepth maxDepth' : Nat} (h : maxDepth ≤ maxDepth')
    {option : SystemOption} {text : Text} {value : OptionValue}
    (hvalue : OptionValue.parse option text maxDepth = .ok value) :
    OptionValue.parse option text maxDepth' = .ok value := by
  rcases OptionValue.parse_of_le h option text with hdeep | hsame
  · rw [hdeep] at hvalue
    cases hvalue
  · exact hsame.symm.trans hvalue

/-- Two limits that accept a text accept it as the same value. -/
theorem OptionValue.parse_agrees {maxDepth maxDepth' : Nat} {option : SystemOption} {text : Text}
    {value value' : OptionValue} (h : OptionValue.parse option text maxDepth = .ok value)
    (h' : OptionValue.parse option text maxDepth' = .ok value') : value = value' := by
  have hvalue := OptionValue.parse_mono (Nat.le_max_left maxDepth maxDepth') h
  have hvalue' := OptionValue.parse_mono (Nat.le_max_right maxDepth maxDepth') h'
  exact Except.ok.inj (hvalue.symm.trans hvalue')

/-- A condition is read as an expression is. -/
theorem OptionValue.parse_filter (text : Text) (maxDepth : Nat) :
    OptionValue.parse .filter text maxDepth = (Expression.parse text maxDepth).map .filter := by
  rw [OptionValue.parse, Expression.parse, readWhole, readWhole, Grammar.optionValue]
  cases Grammar.expression (Grammar.nested maxDepth) [] text with
  | error fault => rfl
  | ok found =>
      obtain ⟨expression, rest⟩ := found
      rw [Except.map]
      dsimp only [bind, Except.bind]
      cases Reader.atEnd rest <;> rfl

end ODataRequest
