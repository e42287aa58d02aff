import ODataRequest.Literal.Basic
import ODataRequest.Query.Operator
import ODataRequest.Query.SystemOption

/-! The trees of expressions and of option values. Expressions hold option lists, in the options of
a counted collection, and option values hold expressions, so the two are one family of types. -/

namespace ODataRequest

def implicitVariable : Text := "$it".toList

def countSegment : Text := "$count".toList

def refSegment : Text := "$ref".toList

/-- A path of member names, possibly from a range variable. -/
structure PropertyAccess where
  /-- The range variable that the path starts from. -/
  qualifier : Option Text
  path : List Text
  deriving DecidableEq

namespace PropertyAccess

/-- A path that starts from no range variable. -/
def bare (path : List Text) : PropertyAccess := ⟨none, path⟩

/-- The same path from a range variable. -/
def qualified (access : PropertyAccess) (qualifier : Text) : PropertyAccess :=
  { access with qualifier := some qualifier }

end PropertyAccess

/-- The direction of sorting by a key. -/
inductive SortDirection where
  | ascending | descending
  deriving DecidableEq

/-- What a select item selects: everything, a path, or the number of elements at a path. -/
inductive SelectItem where
  | all
  | path (route : PropertyAccess)
  | count (route : PropertyAccess)
  deriving DecidableEq

/-- What an expand item expands: everything, the references of everything, a path, the number of
elements at a path, or the references at a path. -/
inductive ExpandTarget where
  | all
  | allRefs
  | path (route : PropertyAccess)
  | count (route : PropertyAccess)
  | ref (route : PropertyAccess)
  deriving DecidableEq

def ExpandTarget.path? : ExpandTarget → Option PropertyAccess
  | .all | .allRefs => none
  | .path route | .count route | .ref route => some route

/-- How far an expansion recurses. -/
inductive Levels where
  | depth (bound : Nat)
  | max
  deriving DecidableEq

mutual

/-- A query expression. -/
inductive Expression where
  | literal (value : Literal)
  | access (route : PropertyAccess)
  | rangeVariable (name : Text)
  | binary (op : BinaryOperator) (left right : Expression)
  | unary (op : UnaryOperator) (operand : Expression)
  | count (collection : PropertyAccess)
  /-- The number of elements of a collection that its options leave. -/
  | subquery (collection : PropertyAccess) (options : List ParsedOption)
  /-- A predicate asked of the elements of a collection; the binder is the range
  variable, and an empty lambda has neither binder nor body. -/
  | lambda (kind : LambdaKind) (collection : PropertyAccess) (binder : Option Text)
    (body : Option Expression)
  | call (name : Text) (arguments : List Expression)

/-- The value of a system option. -/
inductive OptionValue where
  | filter (condition : Expression)
  | orderBy (items : List OrderByItem)
  | select (items : List SelectItem)
  | expand (items : List ExpandItem)
  | top (limit : Nat)
  | skip (offset : Nat)
  | count (wanted : Bool)
  | search (text : Text)
  | apply (text : Text)
  | format (text : Text)
  | levels (bound : Levels)

/-- A system option with its value. -/
inductive ParsedOption where
  | mk (name : SystemOption) (value : OptionValue)

/-- A sort key with its direction. -/
inductive OrderByItem where
  | mk (expression : Expression) (direction : SortDirection)

/-- An expansion with the options for what it expands. -/
inductive ExpandItem where
  | mk (target : ExpandTarget) (options : List ParsedOption)

end

namespace ParsedOption

def name : ParsedOption → SystemOption
  | .mk name _ => name

def value : ParsedOption → OptionValue
  | .mk _ value => value

end ParsedOption

namespace OrderByItem

def expression : OrderByItem → Expression
  | .mk expression _ => expression

def direction : OrderByItem → SortDirection
  | .mk _ direction => direction

end OrderByItem

namespace ExpandItem

def target : ExpandItem → ExpandTarget
  | .mk target _ => target

def options : ExpandItem → List ParsedOption
  | .mk _ options => options

def path? (item : ExpandItem) : Option PropertyAccess :=
  item.target.path?

end ExpandItem

/-- The binding strength of the outermost operator. -/
def Expression.precedence : Expression → Nat
  | .binary op _ _ => op.precedence
  | .unary _ _ => unaryPrecedence
  | _ => primaryPrecedence

end ODataRequest
