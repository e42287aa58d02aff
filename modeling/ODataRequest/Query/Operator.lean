import ODataRequest.Text.Basic

/-! The operators of expressions, with their keywords and binding strengths. -/

namespace ODataRequest

/-- An operator between two operands. -/
inductive BinaryOperator where
  | or | and
  | eq | ne | gt | ge | lt | le | has
  | add | sub
  | mul | div | divBy | mod
  deriving DecidableEq

namespace BinaryOperator

def disjunctive : List BinaryOperator := [.or]

def conjunctive : List BinaryOperator := [.and]

def comparison : List BinaryOperator := [.eq, .ne, .gt, .ge, .lt, .le, .has]

def additive : List BinaryOperator := [.add, .sub]

def multiplicative : List BinaryOperator := [.mul, .div, .divBy, .mod]

/-- The word between the operands. -/
def keyword : BinaryOperator → Text
  | .or => "or".toList
  | .and => "and".toList
  | .eq => "eq".toList
  | .ne => "ne".toList
  | .gt => "gt".toList
  | .ge => "ge".toList
  | .lt => "lt".toList
  | .le => "le".toList
  | .has => "has".toList
  | .add => "add".toList
  | .sub => "sub".toList
  | .mul => "mul".toList
  | .div => "div".toList
  | .divBy => "divby".toList
  | .mod => "mod".toList

/-- The binding strength; a higher one binds tighter. -/
def precedence : BinaryOperator → Nat
  | .or => 1
  | .and => 2
  | .eq | .ne | .gt | .ge | .lt | .le | .has => 3
  | .add | .sub => 4
  | .mul | .div | .divBy | .mod => 5

theorem keyword_injective {left right : BinaryOperator} (h : left.keyword = right.keyword) :
    left = right := by
  cases left <;> cases right <;> first | rfl | (revert h; decide)

end BinaryOperator

/-- An operator before one operand. -/
inductive UnaryOperator where
  | not | negate
  deriving DecidableEq

def UnaryOperator.mark : UnaryOperator → Text
  | .not => "not ".toList
  | .negate => "-".toList

/-- The binding strength of the operators before one operand. -/
def unaryPrecedence : Nat := 6

/-- The binding strength of everything that is not an operator applied to operands. -/
def primaryPrecedence : Nat := 7

/-- The two ways to ask a predicate of the elements of a collection. -/
inductive LambdaKind where
  | any | all
  deriving DecidableEq

def LambdaKind.keyword : LambdaKind → Text
  | .any => "any".toList
  | .all => "all".toList

end ODataRequest
