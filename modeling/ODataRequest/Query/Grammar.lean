import ODataRequest.Query.Reader

/-! The grammar of option values. From the loosest to the tightest, an expression is built by `or`,
by `and`, by the comparisons, by `add` and `sub`, by `mul`, `div`, `divby` and `mod`, by `not` and
`-`, and from literals, groups, calls and paths; operators between operands associate to the left.

Every construct that nests is read one level deeper: a group, the operand of `not` and `-`, the
arguments of a call, the body of a lambda and a list of options. One level is a plain definition
over a reader for the level below it, and the whole grammar is that definition iterated as often as
the depth limit allows. -/

namespace ODataRequest

/-- A region in which names are looked up. -/
inductive Scope where
  /-- The options of a counted collection, where a bare path starts from the implicit variable. -/
  | subquery
  /-- The options of an expansion, where a bare path stays bare. -/
  | expand
  | lambda (binder : Text)
  deriving DecidableEq

/-- The scopes around a place, innermost first. -/
abbrev Scopes := List Scope

namespace Scopes

/-- A name that a lambda around the place binds. -/
def binds (scopes : Scopes) (name : Text) : Bool :=
  scopes.contains (.lambda name)

/-- The range variable that a bare path starts from. -/
def implicitQualifier : Scopes → Option Text
  | [] => none
  | .subquery :: _ => some implicitVariable
  | .expand :: _ => none
  | .lambda _ :: outer => implicitQualifier outer

/-- A path in its scopes. -/
def resolve (scopes : Scopes) (qualifier : Option Text) (path : List Text) : PropertyAccess :=
  ⟨qualifier.or scopes.implicitQualifier, path⟩

end Scopes

/-- The places where a list of options can stand. -/
inductive OptionListKind where
  | count
  | expand
  deriving DecidableEq

namespace OptionListKind

/-- The options that the list may hold. -/
def allows : OptionListKind → SystemOption → Bool
  | .count, .filter | .count, .search => true
  | .count, _ => false
  | .expand, _ => true

/-- What the list expects an option to be. -/
def expectation : OptionListKind → Expectation
  | .count => .countOption
  | .expand => .nestedOption

end OptionListKind

/-- What is read one level deeper. -/
inductive Goal where
  | operand
  | expression
  | arguments
  | options (kind : OptionListKind)

/-- What the reading of a goal gives. -/
abbrev Goal.Value : Goal → Type
  | .operand => Expression
  | .expression => Expression
  | .arguments => List Expression
  | .options _ => List ParsedOption

/-- A reader for every goal. -/
abbrev GoalReader := (goal : Goal) → Scopes → Reader goal.Value

namespace Grammar

open Reader

/-- The operator of a set that comes next, and the text after it. -/
def operator? (operators : List BinaryOperator) (text : Text) :
    Except Fault (Option (BinaryOperator × Text)) := do
  match ← Lexeme.next? text with
  | some ⟨.name word, _, rest⟩ =>
    .ok ((operators.find? fun op => op.keyword = word).map (·, rest))
  | _ => .ok none

/-- The operators and operands after a left operand, where the fuel bounds their number. -/
def moreOperands (operators : List BinaryOperator) (operand : Reader Expression) :
    Nat → Expression → Reader Expression
  | 0, left, text => .ok (left, text)
  | fuel + 1, left, text => do
    match ← operator? operators text with
    | none => .ok (left, text)
    | some (op, rest) =>
      let (right, rest) ← operand rest
      moreOperands operators operand fuel (.binary op left right) rest

/-- Operands with operators of one strength between them, grouped to the left. -/
def leftAssociated (operators : List BinaryOperator) (operand : Reader Expression)
    (text : Text) : Except Fault (Expression × Text) := do
  let (left, rest) ← operand text
  moreOperands operators operand rest.length left rest

/-- The lambda that a word begins when a parenthesis follows it. -/
def lambdaKind? (word : Text) : Option LambdaKind :=
  [LambdaKind.any, LambdaKind.all].find? fun kind => kind.keyword = word

/-- The text after a lambda that ends at once, which only `any` may do. -/
def emptyLambda? (kind : LambdaKind) (text : Text) : Except Fault (Option Text) :=
  if kind = .any then symbol? .closeParen text else .ok none

/-- A lambda on a collection, from after its opening parenthesis on. -/
def lambda (inner : GoalReader) (scopes : Scopes) (kind : LambdaKind)
    (collection : PropertyAccess) (text : Text) : Except Fault (Expression × Text) := do
  match ← emptyLambda? kind text with
  | some rest => .ok (.lambda kind collection none none, rest)
  | none =>
    let (binder, start, rest) ← name .rangeVariable text
    if !isIdentifier binder then .error (.unexpected .rangeVariable (some binder) start)
    else
      let rest ← symbol .colon .colon rest
      let (body, rest) ← inner .expression (.lambda binder :: scopes) rest
      let rest ← symbol .closeParen .closeLambda rest
      .ok (.lambda kind collection (some binder) (some body), rest)

/-- The number of elements of a collection, from after the count segment on. -/
def counted (inner : GoalReader) (scopes : Scopes) (collection : PropertyAccess) (text : Text) :
    Except Fault (Expression × Text) := do
  match ← symbol? .openParen text with
  | none => .ok (.count collection, text)
  | some rest =>
    let (options, rest) ← inner (.options .count) (.subquery :: scopes) rest
    let rest ← symbol .closeParen .closeSubquery rest
    .ok (.subquery collection options, rest)

/-- A path that has ended without a count segment or a lambda. -/
def endPath (scopes : Scopes) (qualifier : Option Text) (path : List Text) : Expression :=
  match qualifier, path with
  | some binder, [] => .rangeVariable binder
  | _, _ => .access (scopes.resolve qualifier path)

/-- The text after the opening parenthesis of a lambda that a word begins, if one comes next. -/
def lambdaStart? (word rest : Text) : Except Fault (Option (LambdaKind × Text)) := do
  match lambdaKind? word with
  | none => .ok none
  | some kind => .ok ((← symbol? .openParen rest).map (kind, ·))

/-- The rest of a path after its first members, where the fuel bounds the number of slashes. -/
def morePath (inner : GoalReader) (scopes : Scopes) (qualifier : Option Text) :
    Nat → List Text → Reader Expression
  | fuel, path, text => do
    match ← symbol? .slash text with
    | none => .ok (endPath scopes qualifier path, text)
    | some after =>
      match ← Lexeme.next? after with
      | some ⟨.name word, start, rest⟩ =>
        if word = countSegment then counted inner scopes (scopes.resolve qualifier path) rest
        else
          match ← lambdaStart? word rest with
          | some (kind, rest) => lambda inner scopes kind (scopes.resolve qualifier path) rest
          | none =>
            checkMember word start
            match fuel with
            | 0 => .ok (endPath scopes qualifier (path ++ [word]), rest)
            | fuel + 1 => morePath inner scopes qualifier fuel (path ++ [word]) rest
      | _ => unexpected .propertyNameAfterSlash after

/-- An expression that begins with a name which no parenthesis follows. -/
def pathExpression (inner : GoalReader) (scopes : Scopes) (head start rest : Text) :
    Except Fault (Expression × Text) := do
  if head = implicitVariable || scopes.binds head then
    morePath inner scopes (some head) rest.length [] rest
  else
    checkMember head start
    morePath inner scopes none rest.length [head] rest

/-- A call, from after its opening parenthesis on. -/
def call (inner : GoalReader) (scopes : Scopes) (function start rest : Text) :
    Except Fault (Expression × Text) := do
  if function.head? = some '$' then .error (.unexpected .functionName (some function) start)
  else
    let (arguments, rest) ← inner .arguments scopes rest
    let rest ← symbol .closeParen .closeArguments rest
    .ok (.call function arguments, rest)

def primary (inner : GoalReader) (scopes : Scopes) (text : Text) :
    Except Fault (Expression × Text) := do
  match ← Lexeme.next? text with
  | some ⟨.literal value, _, rest⟩ => .ok (.literal value, rest)
  | some ⟨.symbol .openParen, _, rest⟩ =>
    let (expression, rest) ← inner .expression scopes rest
    let rest ← symbol .closeParen .closeGroup rest
    .ok (expression, rest)
  | some ⟨.name name, start, rest⟩ =>
    if name.head? = some '@' then
      .error (.unexpected .expressionNotAlias (some name) start)
    else
      match ← symbol? .openParen rest with
      | some rest => call inner scopes name start rest
      | none => pathExpression inner scopes name start rest
  | _ => unexpected .expression text

/-- The fault of a minus sign before a literal that is not a number. -/
def checkNumericOperand (text : Text) : Except Fault Unit := do
  match ← Lexeme.next? text with
  | some ⟨.literal value, _, _⟩ =>
    if value.isNumeric then .ok () else unexpected .numericOperand text
  | _ => .ok ()

/-- An operand of a binary operator: any number of `not` and `-`, then a primary. -/
def operand (inner : GoalReader) (scopes : Scopes) (text : Text) :
    Except Fault (Expression × Text) := do
  match ← word? "not".toList text with
  | some rest =>
    let (expression, rest) ← inner .operand scopes rest
    .ok (.unary .not expression, rest)
  | none =>
    match ← symbol? .minus text with
    | some rest =>
      checkNumericOperand rest
      let (expression, rest) ← inner .operand scopes rest
      .ok (.unary .negate expression, rest)
    | none => primary inner scopes text

def expression (inner : GoalReader) (scopes : Scopes) : Reader Expression :=
  leftAssociated BinaryOperator.disjunctive
    (leftAssociated BinaryOperator.conjunctive
      (leftAssociated BinaryOperator.comparison
        (leftAssociated BinaryOperator.additive
          (leftAssociated BinaryOperator.multiplicative (operand inner scopes)))))

def arguments (inner : GoalReader) (scopes : Scopes) (text : Text) :
    Except Fault (List Expression × Text) := do
  match ← symbol? .closeParen text with
  | some _ => .ok ([], text)
  | none => commaList (expression inner scopes) text

/-- The direction after a sort key, ascending where none is written. -/
def sortDirection (text : Text) : Except Fault (SortDirection × Text) := do
  match ← word? "desc".toList text with
  | some rest => .ok (.descending, rest)
  | none =>
    match ← word? "asc".toList text with
    | some rest => .ok (.ascending, rest)
    | none => .ok (.ascending, text)

def orderByItem (inner : GoalReader) (scopes : Scopes) (text : Text) :
    Except Fault (OrderByItem × Text) := do
  let (key, rest) ← expression inner scopes text
  let (direction, rest) ← sortDirection rest
  .ok (.mk key direction, rest)

def selectItem (text : Text) : Except Fault (SelectItem × Text) := do
  match ← symbol? .star text with
  | some rest => .ok (.all, rest)
  | none =>
    let (path, rest) ← memberPath text
    match ← controlSegment? countSegment rest with
    | some rest => .ok (.count path, rest)
    | none => .ok (.path path, rest)

def expandTarget (text : Text) : Except Fault (ExpandTarget × Text) := do
  match ← symbol? .star text with
  | some rest =>
    match ← controlSegment? refSegment rest with
    | some rest => .ok (.allRefs, rest)
    | none => .ok (.all, rest)
  | none =>
    let (path, rest) ← memberPath text
    match ← controlSegment? countSegment rest with
    | some rest => .ok (.count path, rest)
    | none =>
      match ← controlSegment? refSegment rest with
      | some rest => .ok (.ref path, rest)
      | none => .ok (.path path, rest)

def expandItem (inner : GoalReader) (scopes : Scopes) (text : Text) :
    Except Fault (ExpandItem × Text) := do
  let (target, rest) ← expandTarget text
  match ← symbol? .openParen rest with
  | none => .ok (.mk target [], rest)
  | some rest =>
    let (options, rest) ← inner (.options .expand) (.expand :: scopes) rest
    let rest ← symbol .closeParen .closeExpand rest
    .ok (.mk target options, rest)

/-- The value of a levels option. -/
def parseLevels (raw : Text) : Except InvalidLiteral Levels :=
  if raw.trim = "max".toList then .ok .max
  else
    match parseNonNegative raw with
    | .ok bound => .ok (.depth bound)
    | .error e => .error { e with expected := .levels }

def optionValue (inner : GoalReader) (scopes : Scopes) (option : SystemOption) (text : Text) :
    Except Fault (OptionValue × Text) :=
  let isNested := !scopes.isEmpty
  match option with
  | .filter => (expression inner scopes text).map fun (value, rest) => (.filter value, rest)
  | .orderBy =>
    (commaList (orderByItem inner scopes) text).map fun (items, rest) => (.orderBy items, rest)
  | .select => (commaList selectItem text).map fun (items, rest) => (.select items, rest)
  | .expand =>
    (commaList (expandItem inner scopes) text).map fun (items, rest) => (.expand items, rest)
  | .count => (plainLiteral isNested parseTruth text).map fun (value, rest) => (.count value, rest)
  | .top =>
    (plainLiteral isNested parseNonNegative text).map fun (value, rest) => (.top value, rest)
  | .skip =>
    (plainLiteral isNested parseNonNegative text).map fun (value, rest) => (.skip value, rest)
  | .levels =>
    (plainLiteral isNested parseLevels text).map fun (value, rest) => (.levels value, rest)
  | .search => (verbatim isNested text).map fun (value, rest) => (.search value, rest)
  | .apply => (verbatim isNested text).map fun (value, rest) => (.apply value, rest)
  | .format => (verbatim isNested text).map fun (value, rest) => (.format value, rest)

/-- The option that a list of a kind may hold next, after those it already holds. -/
def listedOption (kind : OptionListKind) (seen : List SystemOption) (name start : Text) :
    Except Fault SystemOption :=
  match SystemOption.ofName? name with
  | some option =>
    if !kind.allows option then .error (.unexpected kind.expectation (some name) start)
    else if option ∈ seen then .error (.unexpected .distinctNestedOption (some name) start)
    else .ok option
  | none => .error (.unexpected kind.expectation (some name) start)

/-- The text after a separator of options, if one comes next. -/
def separator? (text : Text) : Except Fault (Option Text) := do
  match ← symbol? .semicolon text with
  | some rest => .ok (some rest)
  | none => symbol? .ampersand text

/-- A list of options with semicolons or ampersands between them, after options that were already
seen, where the fuel bounds the number of separators. -/
def optionList (inner : GoalReader) (scopes : Scopes) (kind : OptionListKind) :
    Nat → List SystemOption → Reader (List ParsedOption)
  | fuel, seen, text => do
    let (word, start, rest) ← name kind.expectation text
    let option ← listedOption kind seen word start
    let rest ← symbol .equals .equalsSign rest
    let (value, rest) ← optionValue inner scopes option rest
    match ← separator? rest with
    | none => .ok ([.mk option value], rest)
    | some after =>
      match fuel with
      | 0 => .ok ([.mk option value], rest)
      | fuel + 1 =>
        let (options, rest) ← optionList inner scopes kind fuel (option :: seen) after
        .ok (.mk option value :: options, rest)

/-- One level of the grammar over a reader for the level below it. -/
def level (inner : GoalReader) : GoalReader
  | .operand, scopes, text => operand inner scopes text
  | .expression, scopes, text => expression inner scopes text
  | .arguments, scopes, text => arguments inner scopes text
  | .options kind, scopes, text => optionList inner scopes kind text.length [] text

/-- The reader of what nests, where the number of levels that may follow is left. -/
def nested : Nat → GoalReader
  | 0, _, _, _ => .error .tooDeep
  | depth + 1, goal, scopes, text => level (nested depth) goal scopes text

end Grammar

/-- The whole text as what a reader gives. -/
def readWhole {α : Type} (reader : Reader α) (text : Text) : Except Fault α := do
  let (value, rest) ← reader text
  Reader.atEnd rest
  .ok value

/-- The expression that a text is, with at most the given number of levels of nesting. -/
def Expression.parse (text : Text) (maxDepth : Nat) : Except QueryError Expression :=
  (readWhole (Grammar.expression (Grammar.nested maxDepth) []) text).mapError
    (QueryError.ofFault SystemOption.filter.name text maxDepth)

/-- The value of a system option that a decoded text is, with at most the given number of levels of
nesting. -/
def OptionValue.parse (option : SystemOption) (text : Text) (maxDepth : Nat) :
    Except QueryError OptionValue :=
  (readWhole (Grammar.optionValue (Grammar.nested maxDepth) [] option) text).mapError
    (QueryError.ofFault option.name text maxDepth)

end ODataRequest
