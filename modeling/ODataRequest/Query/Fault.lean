import ODataRequest.Literal.Basic

/-! What can be wrong with a query: what was expected and what stood there, a rejected literal, or
nesting beyond the limit. While a text is being read, a fault carries the text that was still unread
where it lies; for the caller this becomes a byte position. -/

namespace ODataRequest

/-- What a reader of queries can miss. -/
inductive Expectation where
  | closingQuote | number | token | endOfInput | value
  | propertyName | propertyNameNotAlias | propertyNameAfterSlash
  | countOption | nestedOption | distinctNestedOption | equalsSign
  | expression | expressionNotAlias | numericOperand
  | functionName | rangeVariable | colon
  | closeGroup | closeArguments | closeLambda | closeSubquery | closeExpand
  | optionName | knownOption | topLevelOption | distinctOption | decodableText
  deriving DecidableEq

def Expectation.describe : Expectation → Text
  | .closingQuote => "a closing quote".toList
  | .number => "a number".toList
  | .token => "a token".toList
  | .endOfInput => "end of input".toList
  | .value => "a value".toList
  | .propertyName => "a property name".toList
  | .propertyNameNotAlias => "a property name (parameter aliases are not supported)".toList
  | .propertyNameAfterSlash => "a property name after '/'".toList
  | .countOption => "$filter or $search".toList
  | .nestedOption => "a system query option".toList
  | .distinctNestedOption => "each nested option at most once".toList
  | .equalsSign => "'=' after the option name".toList
  | .expression => "an expression".toList
  | .expressionNotAlias => "an expression (parameter aliases are not supported)".toList
  | .numericOperand => "a numeric operand after '-'".toList
  | .functionName => "a function name".toList
  | .rangeVariable => "a range variable".toList
  | .colon => "':' after the range variable".toList
  | .closeGroup => "')'".toList
  | .closeArguments => "',' or ')'".toList
  | .closeLambda => "')' to close the lambda".toList
  | .closeSubquery => "';' or ')' after the nested options".toList
  | .closeExpand => "';' or ')' after the expand options".toList
  | .optionName => "a query option name".toList
  | .knownOption => "a known system query option".toList
  | .topLevelOption => "a system query option valid outside $expand".toList
  | .distinctOption => "each system query option at most once".toList
  | .decodableText => "percent-encoding that decodes to UTF-8".toList

/-- A fault met while reading, with the text that was unread where it lies. -/
inductive Fault where
  | unexpected (expected : Expectation) (found : Option Text) (unread : Text)
  | literal (e : InvalidLiteral)
  | tooDeep
  deriving DecidableEq

/-- A malformed query option. -/
structure MalformedOption where
  option : Text
  /-- The position of the fault in the decoded value, in bytes. -/
  position : Nat
  expected : Expectation
  /-- What stands there, none at the end. -/
  found : Option Text
  deriving DecidableEq

def MalformedOption.message (e : MalformedOption) : Text :=
  "in '".toList ++ e.option ++ "' at position ".toList ++ Text.ofNat e.position ++
    ": expected ".toList ++ e.expected.describe ++
    match e.found with
    | some found => ", found '".toList ++ found ++ "'".toList
    | none => ", found end of input".toList

/-- Why the value of a query option was rejected. -/
inductive QueryError where
  | malformed (e : MalformedOption)
  | literal (e : InvalidLiteral)
  | tooComplex (maxDepth : Nat)
  deriving DecidableEq

def tooComplexMessage (maxDepth : Nat) : Text :=
  "expression nests deeper than ".toList ++ Text.ofNat maxDepth ++
    "; raise max_nesting_depth or simplify the query".toList

def QueryError.message : QueryError → Text
  | .malformed e => e.message
  | .literal e => e.message
  | .tooComplex maxDepth => tooComplexMessage maxDepth

/-- The error that a fault in a source text amounts to. -/
def QueryError.ofFault (option source : Text) (maxDepth : Nat) : Fault → QueryError
  | .unexpected expected found unread =>
    .malformed ⟨option, source.utf8Length - unread.utf8Length, expected, found⟩
  | .literal e => .literal e
  | .tooDeep => .tooComplex maxDepth

end ODataRequest
