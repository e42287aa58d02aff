import ODataRequest.Proofs.Cursor.Run

/-! The grammar of option values as a run over a source. Tokens are read ahead into a queue, and every part
of the grammar takes them from there; a raw value is a slice, which the queue is dropped for. What the reader
of the grammar takes from a lexeme that it has met, a part takes from the queue once more: the rejection that
this could end in is written out, and never comes. A stage is noted where it is entered, and a loop where it
turns. -/

namespace ODataRequest

open Text Unicode

namespace Cursor

/-- A run for every goal. -/
abbrev GoalRun := (goal : Goal) → Scopes → Run goal.Value

namespace Run

variable {α : Type} (input : Input)

/-! ### The queue -/

def enqueue (token : Spanned) : Run Unit where
  exec s := (.ok (), { s with queue := s.queue ++ [token] })

def dequeue : Run (Option Spanned) where
  exec s :=
    match s.queue with
    | [] => (.ok none, s)
    | first :: others => (.ok (some first), { s with queue := others, journal := .taken :: s.journal })

def dropQueue : Run Unit where
  exec s := (.ok (), { s with queue := [] })

/-- The next token is queued, unless the source ends. -/
def fetch : Run Bool := do
  match ← next input with
  | some token =>
    enqueue token
    pure true
  | none => pure false

/-- At most so many more tokens are queued, fewer at the end. -/
def fillMore : Nat → Run Unit
  | 0 => pure ()
  | count + 1 => do
    if ← fetch input then fillMore count else pure ()

/-- The queue is filled up to and with an index. -/
def fill (index : Nat) : Run Unit := do
  let s ← get
  fillMore input (index + 1 - s.queue.length)

/-- The token at an index of the queue. -/
def peek (index : Nat) : Run (Option Token) := do
  fill input index
  let s ← get
  pure (s.queue[index]?.map Spanned.token)

def peekSymbol (index : Nat) (symbol : Symbol) : Run Bool := do
  let found ← peek input index
  pure (found = some (.symbol symbol))

def peekWord (index : Nat) (word : Text) : Run Bool := do
  let found ← peek input index
  pure (found = some (.name word))

def advance : Run (Option Spanned) := do
  fill input 0
  dequeue

def eat (symbol : Symbol) : Run Bool := do
  if ← peekSymbol input 0 symbol then
    let _ ← advance input
    pure true
  else pure false

def eatWord (word : Text) : Run Bool := do
  if ← peekWord input 0 word then
    let _ ← advance input
    pure true
  else pure false

/-- A slash and a name are taken if they come next. -/
def eatControlSegment (segment : Text) : Run Bool := do
  if ← peekSymbol input 0 .slash then
    if ← peekWord input 1 segment then
      let _ ← advance input
      let _ ← advance input
      pure true
    else pure false
  else pure false

/-- The next token with its offsets, which stays in the queue. -/
def front : Run (Option Spanned) := do
  fill input 0
  let s ← get
  pure s.queue.head?

/-- The rejection of the next token, which shows it. -/
def unexpected (expected : Expectation) : Run α := do
  match ← front input with
  | some token =>
    let found ← slice input token.start token.stop
    reject input token.start expected (some found)
  | none => reject input (utf8Length input.source) expected none

/-- A mark is taken, which must come next. -/
def expect (symbol : Symbol) (expected : Expectation) : Run Unit := do
  if ← eat input symbol then pure () else unexpected input expected

def expectName (expected : Expectation) : Run (Text × Nat) := do
  match ← front input with
  | some ⟨.name name, start, _⟩ =>
    let _ ← dequeue
    pure (name, start)
  | _ => unexpected input expected

def expectEnd : Run Unit := do
  match ← peek input 0 with
  | none => pure ()
  | some _ => unexpected input .endOfInput

/-- Where the raw value that begins at an offset ends: at the end of the source, or in a nested list before
the mark that closes it or begins the next option. -/
def valueStop (isNested : Bool) (start : Nat) : Run Nat :=
  if isNested then do
    let rest ← sliceFrom input start
    pure (start + utf8Length (Reader.spanVerbatim 0 false rest).1)
  else pure (utf8Length input.source)

/-- The raw value of an option. Tokens that wait are dropped, and the position moves to the end of the
value. -/
def rawValue (isNested : Bool) : Run Text := do
  let s ← get
  let start := match s.queue with
    | first :: _ => first.start
    | [] => s.position
  let stop ← valueStop input isNested start
  note (.kept start stop s.queue.length)
  dropQueue
  moveTo stop
  slice input start stop

/-- A stage of the grammar is entered. -/
def enter (stage : Stage) : Run Unit :=
  note (.entered stage)

/-! ### Lists and member paths -/

/-- The items after the first of a list with commas. -/
def moreItems (item : Run α) : Nat → Run (List α)
  | 0 => fail .endless
  | turns + 1 => do
    enter .commaTurn
    if ← eat input .comma then
      let value ← item
      let values ← moreItems item turns
      pure (value :: values)
    else pure []

def commaList (item : Run α) : Run (List α) := do
  enter .commaList
  let value ← item
  let values ← moreItems input item input.turns
  pure (value :: values)

/-- A name that belongs to neither an alias nor the protocol. -/
def checkMember (name : Text) (start : Nat) : Run Unit :=
  if name.head? = some '@' then reject input start .propertyNameNotAlias (some name)
  else if name.head? = some '$' then reject input start .propertyName (some name)
  else pure ()

/-- A member path goes on: a slash comes next, and a name that is none of the protocol. -/
def continuesPath : Run Bool := do
  if ← peekSymbol input 0 .slash then
    match ← peek input 1 with
    | some (.name name) => pure (name.head? ≠ some '$')
    | _ => pure false
  else pure false

/-- The names of a member path. -/
def memberNames : Nat → Run (List Text)
  | 0 => fail .endless
  | turns + 1 => do
    enter .memberTurn
    let (name, start) ← expectName input .propertyName
    checkMember input name start
    if ← continuesPath input then
      let _ ← advance input
      let names ← memberNames turns
      pure (name :: names)
    else pure [name]

def memberPath : Run PropertyAccess := do
  enter .memberPath
  let names ← memberNames input input.turns
  pure (.bare names)

/-! ### Operators between operands -/

def peekOperator (operators : List BinaryOperator) : Run (Option BinaryOperator) := do
  match ← peek input 0 with
  | some (.name word) => pure (operators.find? fun op => op.keyword = word)
  | _ => pure none

/-- The operators and operands after a left operand. -/
def moreOperands (operators : List BinaryOperator) (strength : Nat) (operand : Run Expression) :
    Nat → Expression → Run Expression
  | 0, _ => fail .endless
  | turns + 1, left => do
    enter (.operatorTurn strength)
    match ← peekOperator input operators with
    | none => pure left
    | some op =>
      let _ ← advance input
      let right ← operand
      moreOperands operators strength operand turns (.binary op left right)

def leftAssociated (operators : List BinaryOperator) (strength : Nat) (operand : Run Expression) :
    Run Expression := do
  enter (.operators strength)
  let left ← operand
  moreOperands input operators strength operand input.turns left

section Levels

variable (inner : GoalRun) (scopes : Scopes)

/-! ### Paths -/

def peekLambda : Run (Option LambdaKind) := do
  match ← peek input 1 with
  | some (.name word) =>
    match Grammar.lambdaKind? word with
    | some kind =>
      let isOpen ← peekSymbol input 2 .openParen
      pure (if isOpen then some kind else none)
    | none => pure none
  | _ => pure none

/-- The end of a lambda that ends at once, which only `any` may do. -/
def emptyLambda (kind : LambdaKind) : Run Bool :=
  if kind = .any then eat input .closeParen else pure false

/-- A lambda on a collection, from after its opening parenthesis on. -/
def lambda (kind : LambdaKind) (collection : PropertyAccess) : Run Expression := do
  enter .lambda
  if ← emptyLambda input kind then pure (.lambda kind collection none none)
  else
    let (binder, start) ← expectName input .rangeVariable
    if !isIdentifier binder then reject input start .rangeVariable (some binder)
    else
      expect input .colon .colon
      let body ← inner .expression (.lambda binder :: scopes)
      expect input .closeParen .closeLambda
      pure (.lambda kind collection (some binder) (some body))

/-- The number of elements of a collection, from after the count segment on. -/
def counted (collection : PropertyAccess) : Run Expression := do
  if ← eat input .openParen then
    let options ← inner (.options .count) (.subquery :: scopes)
    expect input .closeParen .closeSubquery
    pure (.subquery collection options)
  else pure (.count collection)

/-- The slash that comes next is taken, and the member behind it. -/
def takeMember : Run Text := do
  let _ ← advance input
  let (name, start) ← expectName input .propertyNameAfterSlash
  checkMember input name start
  pure name

/-- The rest of a path after its first members. -/
def morePath (qualifier : Option Text) : Nat → List Text → Run Expression
  | 0, _ => fail .endless
  | turns + 1, path => do
    enter .pathTurn
    if ← peekSymbol input 0 .slash then
      if ← peekWord input 1 countSegment then
        let _ ← advance input
        let _ ← advance input
        counted input inner scopes (scopes.resolve qualifier path)
      else
        match ← peekLambda input with
        | some kind =>
          let _ ← advance input
          let _ ← advance input
          let _ ← advance input
          lambda input inner scopes kind (scopes.resolve qualifier path)
        | none =>
          let name ← takeMember input
          morePath qualifier turns (path ++ [name])
    else pure (Grammar.endPath scopes qualifier path)

def pathExpression : Run Expression := do
  enter .path
  let (head, start) ← expectName input .propertyName
  if head = implicitVariable || scopes.binds head then
    morePath input inner scopes (some head) input.turns []
  else
    checkMember input head start
    morePath input inner scopes none input.turns [head]

/-! ### Operands -/

def call : Run Expression := do
  enter .call
  let (function, start) ← expectName input .functionName
  if function.head? = some '$' then reject input start .functionName (some function)
  else
    expect input .openParen .expression
    let arguments ← inner .arguments scopes
    expect input .closeParen .closeArguments
    pure (.call function arguments)

def takeLiteral : Run Expression := do
  match ← advance input with
  | some ⟨.literal value, _, _⟩ => pure (.literal value)
  | _ => unexpected input .expression

def primary : Run Expression := do
  enter .primary
  match ← peek input 0 with
  | some (.literal _) => takeLiteral input
  | some (.symbol .openParen) =>
    let _ ← advance input
    let expression ← inner .expression scopes
    expect input .closeParen .closeGroup
    pure expression
  | some (.name name) =>
    if name.head? = some '@' then unexpected input .expressionNotAlias
    else if ← peekSymbol input 1 .openParen then call input inner scopes
    else pathExpression input inner scopes
  | _ => unexpected input .expression

def checkNumericOperand : Run Unit := do
  match ← peek input 0 with
  | some (.literal value) => if value.isNumeric then pure () else unexpected input .numericOperand
  | _ => pure ()

def operand : Run Expression := do
  enter .operand
  if ← eatWord input "not".toList then
    let expression ← inner .operand scopes
    pure (.unary .not expression)
  else if ← eat input .minus then
    checkNumericOperand input
    let expression ← inner .operand scopes
    pure (.unary .negate expression)
  else primary input inner scopes

def expression : Run Expression := do
  enter .expression
  leftAssociated input BinaryOperator.disjunctive 1
    (leftAssociated input BinaryOperator.conjunctive 2
      (leftAssociated input BinaryOperator.comparison 3
        (leftAssociated input BinaryOperator.additive 4
          (leftAssociated input BinaryOperator.multiplicative 5 (operand input inner scopes)))))

def arguments : Run (List Expression) := do
  enter .arguments
  if ← peekSymbol input 0 .closeParen then pure []
  else commaList input (expression input inner scopes)

/-! ### Values of options -/

def sortDirection : Run SortDirection := do
  if ← eatWord input "desc".toList then pure .descending
  else
    let _ ← eatWord input "asc".toList
    pure .ascending

def orderByItem : Run OrderByItem := do
  let key ← expression input inner scopes
  let direction ← sortDirection input
  pure (.mk key direction)

def selectItem : Run SelectItem := do
  if ← eat input .star then pure .all
  else
    let path ← memberPath input
    if ← eatControlSegment input countSegment then pure (.count path) else pure (.path path)

def expandTarget : Run ExpandTarget := do
  if ← eat input .star then
    if ← eatControlSegment input refSegment then pure .allRefs else pure .all
  else
    let path ← memberPath input
    if ← eatControlSegment input countSegment then pure (.count path)
    else if ← eatControlSegment input refSegment then pure (.ref path)
    else pure (.path path)

def expandItem : Run ExpandItem := do
  let target ← expandTarget input
  if ← eat input .openParen then
    let options ← inner (.options .expand) (.expand :: scopes)
    expect input .closeParen .closeExpand
    pure (.mk target options)
  else pure (.mk target [])

/-- The raw text of a value, kept as it is without white space around it. -/
def verbatim (isNested : Bool) : Run Text := do
  let raw ← rawValue input isNested
  if raw.trim.isEmpty then unexpected input .value else pure raw.trim

def plainLiteral (isNested : Bool) (parse : Text → Except InvalidLiteral α) : Run α := do
  let raw ← rawValue input isNested
  match parse raw with
  | .ok value => pure value
  | .error e => fail (.rejected (.literal e))

def optionValue (option : SystemOption) : Run OptionValue := do
  enter .value
  let isNested := !scopes.isEmpty
  match option with
  | .filter => return .filter (← expression input inner scopes)
  | .orderBy => return .orderBy (← commaList input (orderByItem input inner scopes))
  | .select => return .select (← commaList input (selectItem input))
  | .expand => return .expand (← commaList input (expandItem input inner scopes))
  | .count => return .count (← plainLiteral input isNested parseTruth)
  | .top => return .top (← plainLiteral input isNested parseNonNegative)
  | .skip => return .skip (← plainLiteral input isNested parseNonNegative)
  | .levels => return .levels (← plainLiteral input isNested Grammar.parseLevels)
  | .search => return .search (← verbatim input isNested)
  | .apply => return .apply (← verbatim input isNested)
  | .format => return .format (← verbatim input isNested)

/-! ### Lists of options -/

/-- The option that a list of a kind may hold next, after those it already holds. -/
def listedOption (kind : OptionListKind) (seen : List SystemOption) (name : Text) (start : Nat) :
    Run SystemOption :=
  match SystemOption.ofName? name with
  | some option =>
    if !kind.allows option then reject input start kind.expectation (some name)
    else if option ∈ seen then reject input start .distinctNestedOption (some name)
    else pure option
  | none => reject input start kind.expectation (some name)

def eatSeparator : Run Bool := do
  if ← eat input .semicolon then pure true else eat input .ampersand

/-- A list of options with semicolons or ampersands between them, after options that were already seen. -/
def optionList (kind : OptionListKind) : Nat → List SystemOption → Run (List ParsedOption)
  | 0, _ => fail .endless
  | turns + 1, seen => do
    enter .optionTurn
    let (word, start) ← expectName input kind.expectation
    let option ← listedOption input kind seen word start
    expect input .equals .equalsSign
    let value ← optionValue input inner scopes option
    if ← eatSeparator input then
      let options ← optionList kind turns (option :: seen)
      pure (.mk option value :: options)
    else pure [.mk option value]

end Levels

/-! ### All levels -/

def level (inner : GoalRun) : GoalRun
  | .operand, scopes => operand input inner scopes
  | .expression, scopes => expression input inner scopes
  | .arguments, scopes => arguments input inner scopes
  | .options kind, scopes => do
    enter .optionList
    optionList input inner scopes kind input.turns []

/-- The run for what nests, where the number of levels that may follow is left. -/
def nested : Nat → GoalRun
  | 0, _, _ => fail (.rejected (.tooComplex input.maxDepth))
  | depth + 1, goal, scopes => level input (nested depth) goal scopes

/-- The whole source as the value of an option. -/
def wholeValue (option : SystemOption) : Run OptionValue := do
  let value ← optionValue input (nested input input.maxDepth) [] option
  expectEnd input
  pure value

end Run

/-- The value of an option that a decoded text is, as a run over its bytes whose loops turn at most so often,
with the state at its end. -/
def parse (option : SystemOption) (text : Text) (maxDepth turns : Nat) :
    Except Failure OptionValue × State :=
  (Run.wholeValue ⟨option.name, text, maxDepth, turns⟩ option).exec ⟨0, [], []⟩

end Cursor

end ODataRequest
