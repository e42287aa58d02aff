import Mathlib.Algebra.Group.Nat.Defs
import ODataRequest.Proofs.Query.WellFormed
import ODataRequest.Query.Canonical

/-! The literals under a minus sign, and what becomes of them when a canonical text is read again. A
minus sign before a literal is written without a space, so that it is read back as the sign of the
number. Where the operand is no number the text is rejected, and where the signed number has another
canonical text the text is not kept. -/

namespace ODataRequest

open Text

namespace Literal

/-- A literal whose canonical text keeps a minus sign before it when it is read again: a number other
than zero, and not the absolute value of the least integer with leading zeros. -/
def KeepsMinus : Literal → Prop
  | .integer value => value ≠ 0
  | .decimal text => isDigits text = true ∧ digitsValue text = 2 ^ 63 → text = ofNat (2 ^ 63)
  | _ => False

instance : DecidablePred KeepsMinus
  | .null => inferInstanceAs (Decidable False)
  | .boolean _ => inferInstanceAs (Decidable False)
  | .integer value => inferInstanceAs (Decidable (value ≠ 0))
  | .decimal text => inferInstanceAs (Decidable
      (isDigits text = true ∧ digitsValue text = 2 ^ 63 → text = ofNat (2 ^ 63)))
  | .string _ => inferInstanceAs (Decidable False)
  | .guid _ => inferInstanceAs (Decidable False)
  | .enumeration _ _ => inferInstanceAs (Decidable False)

/-- What the canonical text of a minus sign before a literal is read as. -/
def rereadNegated (value : Literal) : Option Expression :=
  if value.isNumeric then
    if value.render.head? = some '-' then some (.unary .negate (.literal value))
    else some (.literal (ofNumber ('-' :: value.render)))
  else none

end Literal

mutual

/-- The literals that stand directly under a minus sign, from left to right. -/
def Expression.negatedLiterals : Expression → List Literal
  | .literal _ => []
  | .access _ => []
  | .rangeVariable _ => []
  | .binary _ left right => left.negatedLiterals ++ right.negatedLiterals
  | .unary .negate (.literal value) => [value]
  | .unary _ operand => operand.negatedLiterals
  | .count _ => []
  | .subquery _ options => ParsedOption.negatedLiteralsAll options
  | .lambda _ _ _ body => Expression.negatedLiteralsBody body
  | .call _ arguments => Expression.negatedLiteralsAll arguments

def Expression.negatedLiteralsBody : Option Expression → List Literal
  | none => []
  | some body => body.negatedLiterals

def Expression.negatedLiteralsAll : List Expression → List Literal
  | [] => []
  | expression :: rest => expression.negatedLiterals ++ Expression.negatedLiteralsAll rest

def OptionValue.negatedLiterals : OptionValue → List Literal
  | .filter condition => condition.negatedLiterals
  | .orderBy items => OrderByItem.negatedLiteralsAll items
  | .select _ => []
  | .expand items => ExpandItem.negatedLiteralsAll items
  | .top _ => []
  | .skip _ => []
  | .count _ => []
  | .search _ => []
  | .apply _ => []
  | .format _ => []
  | .levels _ => []

def ParsedOption.negatedLiterals : ParsedOption → List Literal
  | .mk _ value => value.negatedLiterals

def ParsedOption.negatedLiteralsAll : List ParsedOption → List Literal
  | [] => []
  | option :: rest => option.negatedLiterals ++ ParsedOption.negatedLiteralsAll rest

def OrderByItem.negatedLiterals : OrderByItem → List Literal
  | .mk expression _ => expression.negatedLiterals

def OrderByItem.negatedLiteralsAll : List OrderByItem → List Literal
  | [] => []
  | item :: rest => item.negatedLiterals ++ OrderByItem.negatedLiteralsAll rest

def ExpandItem.negatedLiterals : ExpandItem → List Literal
  | .mk _ options => ParsedOption.negatedLiteralsAll options

def ExpandItem.negatedLiteralsAll : List ExpandItem → List Literal
  | [] => []
  | item :: rest => item.negatedLiterals ++ ExpandItem.negatedLiteralsAll rest

end

mutual

/-- What the canonical text of an expression is read as, none where it is rejected. -/
def Expression.reread : Expression → Option Expression
  | .literal value => some (.literal value)
  | .access route => some (.access route)
  | .rangeVariable name => some (.rangeVariable name)
  | .binary op left right =>
    left.reread.bind fun left => right.reread.map fun right => .binary op left right
  | .unary .negate (.literal value) => value.rereadNegated
  | .unary op operand => operand.reread.map (.unary op)
  | .count collection => some (.count collection)
  | .subquery collection options => (ParsedOption.rereadAll options).map (.subquery collection)
  | .lambda kind collection binder body =>
    (Expression.rereadBody body).map (.lambda kind collection binder)
  | .call name arguments => (Expression.rereadAll arguments).map (.call name)

def Expression.rereadBody : Option Expression → Option (Option Expression)
  | none => some none
  | some body => body.reread.map some

def Expression.rereadAll : List Expression → Option (List Expression)
  | [] => some []
  | expression :: rest =>
    expression.reread.bind fun expression => (Expression.rereadAll rest).map (expression :: ·)

def OptionValue.reread : OptionValue → Option OptionValue
  | .filter condition => condition.reread.map .filter
  | .orderBy items => (OrderByItem.rereadAll items).map .orderBy
  | .select items => some (.select items)
  | .expand items => (ExpandItem.rereadAll items).map .expand
  | .top limit => some (.top limit)
  | .skip offset => some (.skip offset)
  | .count wanted => some (.count wanted)
  | .search text => some (.search text)
  | .apply text => some (.apply text)
  | .format text => some (.format text)
  | .levels bound => some (.levels bound)

def ParsedOption.reread : ParsedOption → Option ParsedOption
  | .mk name value => value.reread.map (.mk name)

def ParsedOption.rereadAll : List ParsedOption → Option (List ParsedOption)
  | [] => some []
  | option :: rest =>
    option.reread.bind fun option => (ParsedOption.rereadAll rest).map (option :: ·)

def OrderByItem.reread : OrderByItem → Option OrderByItem
  | .mk expression direction => expression.reread.map (.mk · direction)

def OrderByItem.rereadAll : List OrderByItem → Option (List OrderByItem)
  | [] => some []
  | item :: rest => item.reread.bind fun item => (OrderByItem.rereadAll rest).map (item :: ·)

/-- What the canonical text of an expansion is read as. -/
def ExpandItem.reread : ExpandItem → Option ExpandItem
  | .mk target options => (ParsedOption.rereadAll options).map (.mk target)

def ExpandItem.rereadAll : List ExpandItem → Option (List ExpandItem)
  | [] => some []
  | item :: rest => item.reread.bind fun item => (ExpandItem.rereadAll rest).map (item :: ·)

end

/-! ### Lists, item by item -/

/-- What a list is read as, none where an item is rejected. -/
def rereadEach {α : Type} (reread : α → Option α) : List α → Option (List α)
  | [] => some []
  | item :: rest => (reread item).bind fun item => (rereadEach reread rest).map (item :: ·)

/-- What an option is read as, where its value is read in a given way. -/
def ParsedOption.rereadBy (reread : OptionValue → Option OptionValue) (option : ParsedOption) :
    Option ParsedOption :=
  (reread option.value).map (.mk option.name)

theorem rereadEach_some {α : Type} (items : List α) : rereadEach some items = some items := by
  induction items with
  | nil => rfl
  | cons item rest ih =>
      rw [rereadEach, ih]
      rfl

theorem rereadEach_map {α : Type} (reread : α → Option α) (f : α → α) (items : List α) :
    rereadEach reread (items.map f) = rereadEach (fun item => reread (f item)) items := by
  induction items with
  | nil => rfl
  | cons item rest ih => rw [List.map_cons, rereadEach, rereadEach, ih]

theorem Expression.rereadAll_eq_rereadEach (expressions : List Expression) :
    Expression.rereadAll expressions = rereadEach Expression.reread expressions := by
  induction expressions with
  | nil => rfl
  | cons expression rest ih =>
      rw [Expression.rereadAll, rereadEach, ih]

theorem ParsedOption.rereadAll_eq_rereadEach (options : List ParsedOption) :
    ParsedOption.rereadAll options = rereadEach ParsedOption.reread options := by
  induction options with
  | nil => rfl
  | cons option rest ih =>
      rw [ParsedOption.rereadAll, rereadEach, ih]

theorem OrderByItem.rereadAll_eq_rereadEach (items : List OrderByItem) :
    OrderByItem.rereadAll items = rereadEach OrderByItem.reread items := by
  induction items with
  | nil => rfl
  | cons item rest ih =>
      rw [OrderByItem.rereadAll, rereadEach, ih]

theorem ExpandItem.rereadAll_eq_rereadEach (items : List ExpandItem) :
    ExpandItem.rereadAll items = rereadEach ExpandItem.reread items := by
  induction items with
  | nil => rfl
  | cons item rest ih =>
      rw [ExpandItem.rereadAll, rereadEach, ih]

theorem Expression.negatedLiteralsAll_eq_flatMap (expressions : List Expression) :
    Expression.negatedLiteralsAll expressions = expressions.flatMap Expression.negatedLiterals := by
  induction expressions with
  | nil => rfl
  | cons expression rest ih => rw [Expression.negatedLiteralsAll, ih, List.flatMap_cons]

theorem ParsedOption.negatedLiteralsAll_eq_flatMap (options : List ParsedOption) :
    ParsedOption.negatedLiteralsAll options = options.flatMap ParsedOption.negatedLiterals := by
  induction options with
  | nil => rfl
  | cons option rest ih => rw [ParsedOption.negatedLiteralsAll, ih, List.flatMap_cons]

theorem OrderByItem.negatedLiteralsAll_eq_flatMap (items : List OrderByItem) :
    OrderByItem.negatedLiteralsAll items = items.flatMap OrderByItem.negatedLiterals := by
  induction items with
  | nil => rfl
  | cons item rest ih => rw [OrderByItem.negatedLiteralsAll, ih, List.flatMap_cons]

theorem ExpandItem.negatedLiteralsAll_eq_flatMap (items : List ExpandItem) :
    ExpandItem.negatedLiteralsAll items = items.flatMap ExpandItem.negatedLiterals := by
  induction items with
  | nil => rfl
  | cons item rest ih => rw [ExpandItem.negatedLiteralsAll, ih, List.flatMap_cons]

theorem isEmpty_rereadEach {α : Type} {reread : α → Option α} {items found : List α}
    (h : rereadEach reread items = some found) : found.isEmpty = items.isEmpty := by
  cases items with
  | nil =>
      cases h
      rfl
  | cons item rest =>
      rw [rereadEach, Option.bind_eq_some_iff] at h
      obtain ⟨item', -, h⟩ := h
      obtain ⟨rest', -, rfl⟩ := Option.map_eq_some_iff.mp h
      rfl

/-! ### Trees without a literal under a minus sign -/

theorem OptionValue.IsPlain.negatedLiterals_eq_nil {scopes : Scopes} {option : SystemOption}
    {value : OptionValue} (h : value.IsPlain scopes option) : value.negatedLiterals = [] := by
  cases h <;> rfl

mutual

/-- An expression without a literal under a minus sign is read as itself. -/
theorem Expression.reread_of_negatedLiterals_eq_nil :
    ∀ {expression : Expression}, expression.negatedLiterals = [] →
      expression.reread = some expression
  | .literal _, _ => rfl
  | .access _, _ => rfl
  | .rangeVariable _, _ => rfl
  | .binary op left right, h => by
      rw [Expression.negatedLiterals, List.append_eq_nil_iff] at h
      rw [Expression.reread, Expression.reread_of_negatedLiterals_eq_nil h.1,
        Expression.reread_of_negatedLiterals_eq_nil h.2]
      rfl
  | .unary .not operand, h => by
      rw [Expression.negatedLiterals] at h
      · rw [Expression.reread, Expression.reread_of_negatedLiterals_eq_nil h]
        · rfl
        · simp
      · simp
  | .unary .negate operand, h => by
      have hliteral : ∀ value, operand ≠ .literal value := by
        rintro value rfl
        cases h
      rw [Expression.negatedLiterals] at h
      · rw [Expression.reread, Expression.reread_of_negatedLiterals_eq_nil h]
        · rfl
        · exact fun value _ => hliteral value
      · exact fun value _ => hliteral value
  | .count _, _ => rfl
  | .subquery _ options, h => by
      rw [Expression.negatedLiterals] at h
      rw [Expression.reread, ParsedOption.rereadAll_of_negatedLiterals_eq_nil h]
      rfl
  | .lambda _ _ _ none, _ => rfl
  | .lambda _ _ _ (some body), h => by
      rw [Expression.negatedLiterals, Expression.negatedLiteralsBody] at h
      rw [Expression.reread, Expression.rereadBody, Expression.reread_of_negatedLiterals_eq_nil h]
      rfl
  | .call _ arguments, h => by
      rw [Expression.negatedLiterals] at h
      rw [Expression.reread, Expression.rereadAll_of_negatedLiterals_eq_nil h]
      rfl

theorem Expression.rereadAll_of_negatedLiterals_eq_nil : ∀ {expressions : List Expression},
    Expression.negatedLiteralsAll expressions = [] →
      Expression.rereadAll expressions = some expressions
  | [], _ => rfl
  | expression :: rest, h => by
      rw [Expression.negatedLiteralsAll, List.append_eq_nil_iff] at h
      rw [Expression.rereadAll, Expression.reread_of_negatedLiterals_eq_nil h.1,
        Expression.rereadAll_of_negatedLiterals_eq_nil h.2]
      rfl

theorem OptionValue.reread_of_negatedLiterals_eq_nil : ∀ {value : OptionValue},
    value.negatedLiterals = [] → value.reread = some value
  | .filter condition, h => by
      rw [OptionValue.negatedLiterals] at h
      rw [OptionValue.reread, Expression.reread_of_negatedLiterals_eq_nil h]
      rfl
  | .orderBy items, h => by
      rw [OptionValue.negatedLiterals] at h
      rw [OptionValue.reread, OrderByItem.rereadAll_of_negatedLiterals_eq_nil h]
      rfl
  | .select _, _ => rfl
  | .expand items, h => by
      rw [OptionValue.negatedLiterals] at h
      rw [OptionValue.reread, ExpandItem.rereadAll_of_negatedLiterals_eq_nil h]
      rfl
  | .top _, _ => rfl
  | .skip _, _ => rfl
  | .count _, _ => rfl
  | .search _, _ => rfl
  | .apply _, _ => rfl
  | .format _, _ => rfl
  | .levels _, _ => rfl

theorem ParsedOption.rereadAll_of_negatedLiterals_eq_nil : ∀ {options : List ParsedOption},
    ParsedOption.negatedLiteralsAll options = [] → ParsedOption.rereadAll options = some options
  | [], _ => rfl
  | .mk name value :: rest, h => by
      rw [ParsedOption.negatedLiteralsAll, List.append_eq_nil_iff,
        ParsedOption.negatedLiterals] at h
      rw [ParsedOption.rereadAll, ParsedOption.reread,
        OptionValue.reread_of_negatedLiterals_eq_nil h.1,
        ParsedOption.rereadAll_of_negatedLiterals_eq_nil h.2]
      rfl

theorem OrderByItem.rereadAll_of_negatedLiterals_eq_nil : ∀ {items : List OrderByItem},
    OrderByItem.negatedLiteralsAll items = [] → OrderByItem.rereadAll items = some items
  | [], _ => rfl
  | .mk expression direction :: rest, h => by
      rw [OrderByItem.negatedLiteralsAll, List.append_eq_nil_iff,
        OrderByItem.negatedLiterals] at h
      rw [OrderByItem.rereadAll, OrderByItem.reread,
        Expression.reread_of_negatedLiterals_eq_nil h.1,
        OrderByItem.rereadAll_of_negatedLiterals_eq_nil h.2]
      rfl

theorem ExpandItem.rereadAll_of_negatedLiterals_eq_nil : ∀ {items : List ExpandItem},
    ExpandItem.negatedLiteralsAll items = [] → ExpandItem.rereadAll items = some items
  | [], _ => rfl
  | .mk target options :: rest, h => by
      rw [ExpandItem.negatedLiteralsAll, List.append_eq_nil_iff,
        ExpandItem.negatedLiterals] at h
      rw [ExpandItem.rereadAll, ExpandItem.reread,
        ParsedOption.rereadAll_of_negatedLiterals_eq_nil h.1,
        ExpandItem.rereadAll_of_negatedLiterals_eq_nil h.2]
      rfl

end

end ODataRequest
