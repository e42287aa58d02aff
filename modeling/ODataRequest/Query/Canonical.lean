import ODataRequest.Query.Expression

/-! The canonical text of expressions and option values: one space around binary operators, keywords
in lower case, parentheses only where the binding strengths ask for them, nested options separated
by semicolons, other lists by commas without spaces, and every range variable written out. The text
is not escaped. -/

namespace ODataRequest

/-- The texts with a separator between neighbours. -/
def joinTexts (separator : Char) (parts : List Text) : Text :=
  [separator].intercalate parts

/-- The canonical text of a path. -/
def PropertyAccess.render (access : PropertyAccess) : Text :=
  joinTexts '/' (access.qualifier.toList ++ access.path)

def PropertyAccess.renderCount (access : PropertyAccess) : Text :=
  access.render ++ '/' :: countSegment

def SelectItem.render : SelectItem → Text
  | .all => ['*']
  | .path route => route.render
  | .count route => route.renderCount

def ExpandTarget.render : ExpandTarget → Text
  | .all => ['*']
  | .allRefs => '*' :: '/' :: refSegment
  | .path route => route.render
  | .count route => route.renderCount
  | .ref route => route.render ++ '/' :: refSegment

def Levels.render : Levels → Text
  | .depth bound => Text.ofNat bound
  | .max => "max".toList

def renderTruth : Bool → Text
  | true => "true".toList
  | false => "false".toList

def SortDirection.render : SortDirection → Text
  | .ascending => []
  | .descending => " desc".toList

def parenthesized (text : Text) : Text :=
  '(' :: text ++ [')']

/-- The text of an operand, in parentheses if it binds looser than its place demands. -/
def renderOperand (demanded actual : Nat) (text : Text) : Text :=
  if actual < demanded then parenthesized text else text

mutual

def Expression.render : Expression → Text
  | .literal value => value.render
  | .access route => route.render
  | .rangeVariable name => name
  | .binary op left right =>
    renderOperand op.precedence left.precedence left.render ++
      ' ' :: op.keyword ++
      ' ' :: renderOperand (op.precedence + 1) right.precedence right.render
  | .unary op operand =>
    op.mark ++ renderOperand unaryPrecedence operand.precedence operand.render
  | .count collection => collection.renderCount
  | .subquery collection options =>
    collection.renderCount ++ parenthesized (joinTexts ';' (ParsedOption.renderAll options))
  | .lambda kind collection binder body =>
    collection.render ++ '/' :: kind.keyword ++
      parenthesized (Expression.renderBody binder body)
  | .call name arguments => name ++ parenthesized (joinTexts ',' (Expression.renderAll arguments))

def Expression.renderBody (binder : Option Text) : Option Expression → Text
  | none => []
  | some body =>
    match binder with
    | none => []
    | some name => name ++ ':' :: body.render

def Expression.renderAll : List Expression → List Text
  | [] => []
  | expression :: rest => expression.render :: Expression.renderAll rest

def OptionValue.render : OptionValue → Text
  | .filter condition => condition.render
  | .orderBy items => joinTexts ',' (OrderByItem.renderAll items)
  | .select items => joinTexts ',' (items.map SelectItem.render)
  | .expand items => joinTexts ',' (ExpandItem.renderAll items)
  | .top limit => Text.ofNat limit
  | .skip offset => Text.ofNat offset
  | .count wanted => renderTruth wanted
  | .search text => text
  | .apply text => text
  | .format text => text
  | .levels bound => bound.render

def ParsedOption.render : ParsedOption → Text
  | .mk name value => name.name ++ '=' :: value.render

def ParsedOption.renderAll : List ParsedOption → List Text
  | [] => []
  | option :: rest => option.render :: ParsedOption.renderAll rest

def OrderByItem.render : OrderByItem → Text
  | .mk expression direction => expression.render ++ direction.render

def OrderByItem.renderAll : List OrderByItem → List Text
  | [] => []
  | item :: rest => item.render :: OrderByItem.renderAll rest

def ExpandItem.render : ExpandItem → Text
  | .mk target options =>
    target.render ++
      if options.isEmpty then []
      else parenthesized (joinTexts ';' (ParsedOption.renderAll options))

def ExpandItem.renderAll : List ExpandItem → List Text
  | [] => []
  | item :: rest => item.render :: ExpandItem.renderAll rest

end

theorem Expression.renderAll_eq_map (expressions : List Expression) :
    Expression.renderAll expressions = expressions.map Expression.render := by
  induction expressions with
  | nil => rfl
  | cons expression rest ih => simp [Expression.renderAll, ih]

theorem ParsedOption.renderAll_eq_map (options : List ParsedOption) :
    ParsedOption.renderAll options = options.map ParsedOption.render := by
  induction options with
  | nil => rfl
  | cons option rest ih => simp [ParsedOption.renderAll, ih]

theorem OrderByItem.renderAll_eq_map (items : List OrderByItem) :
    OrderByItem.renderAll items = items.map OrderByItem.render := by
  induction items with
  | nil => rfl
  | cons item rest ih => simp [OrderByItem.renderAll, ih]

theorem ExpandItem.renderAll_eq_map (items : List ExpandItem) :
    ExpandItem.renderAll items = items.map ExpandItem.render := by
  induction items with
  | nil => rfl
  | cons item rest ih => simp [ExpandItem.renderAll, ih]

end ODataRequest
