import ODataRequest.Query.Expression

/-! Equality of expressions and option values is decidable: a comparison of the trees answers it. -/

namespace ODataRequest

mutual

/-- Comparison of two expressions. -/
def Expression.same : Expression → Expression → Bool
  | .literal a, .literal b => a = b
  | .access a, .access b => a = b
  | .rangeVariable a, .rangeVariable b => a = b
  | .binary op left right, .binary op' left' right' =>
    decide (op = op') && left.same left' && right.same right'
  | .unary op operand, .unary op' operand' => decide (op = op') && operand.same operand'
  | .count a, .count b => a = b
  | .subquery a options, .subquery b options' =>
    decide (a = b) && ParsedOption.sameAll options options'
  | .lambda kind a binder body, .lambda kind' b binder' body' =>
    decide (kind = kind') && decide (a = b) && decide (binder = binder') &&
      Expression.sameBody body body'
  | .call name arguments, .call name' arguments' =>
    decide (name = name') && Expression.sameAll arguments arguments'
  | _, _ => false
termination_by structural a => a

def Expression.sameBody : Option Expression → Option Expression → Bool
  | none, none => true
  | some a, some b => a.same b
  | _, _ => false
termination_by structural a => a

def Expression.sameAll : List Expression → List Expression → Bool
  | [], [] => true
  | a :: as, b :: bs => a.same b && Expression.sameAll as bs
  | _, _ => false
termination_by structural a => a

def OptionValue.same : OptionValue → OptionValue → Bool
  | .filter a, .filter b => a.same b
  | .orderBy a, .orderBy b => OrderByItem.sameAll a b
  | .select a, .select b => a = b
  | .expand a, .expand b => ExpandItem.sameAll a b
  | .top a, .top b => a = b
  | .skip a, .skip b => a = b
  | .count a, .count b => a = b
  | .search a, .search b => a = b
  | .apply a, .apply b => a = b
  | .format a, .format b => a = b
  | .levels a, .levels b => a = b
  | _, _ => false
termination_by structural a => a

def ParsedOption.same : ParsedOption → ParsedOption → Bool
  | .mk name value, .mk name' value' => decide (name = name') && value.same value'
termination_by structural a => a

def ParsedOption.sameAll : List ParsedOption → List ParsedOption → Bool
  | [], [] => true
  | a :: as, b :: bs => a.same b && ParsedOption.sameAll as bs
  | _, _ => false
termination_by structural a => a

def OrderByItem.same : OrderByItem → OrderByItem → Bool
  | .mk expression direction, .mk expression' direction' =>
    expression.same expression' && decide (direction = direction')
termination_by structural a => a

def OrderByItem.sameAll : List OrderByItem → List OrderByItem → Bool
  | [], [] => true
  | a :: as, b :: bs => a.same b && OrderByItem.sameAll as bs
  | _, _ => false
termination_by structural a => a

def ExpandItem.same : ExpandItem → ExpandItem → Bool
  | .mk target options, .mk target' options' =>
    decide (target = target') && ParsedOption.sameAll options options'
termination_by structural a => a

def ExpandItem.sameAll : List ExpandItem → List ExpandItem → Bool
  | [], [] => true
  | a :: as, b :: bs => a.same b && ExpandItem.sameAll as bs
  | _, _ => false
termination_by structural a => a

end

mutual

theorem Expression.same_eq_true_iff : ∀ a b : Expression, a.same b = true ↔ a = b
  | .literal a, b => by cases b <;> simp [Expression.same]
  | .access a, b => by cases b <;> simp [Expression.same]
  | .rangeVariable a, b => by cases b <;> simp [Expression.same]
  | .binary op left right, b => by
    cases b <;>
      simp [Expression.same, Expression.same_eq_true_iff left, Expression.same_eq_true_iff right,
        and_assoc]
  | .unary op operand, b => by
    cases b <;> simp [Expression.same, Expression.same_eq_true_iff operand]
  | .count a, b => by cases b <;> simp [Expression.same]
  | .subquery a options, b => by
    cases b <;> simp [Expression.same, ParsedOption.sameAll_eq_true_iff options]
  | .lambda kind a binder body, b => by
    cases b <;> simp [Expression.same, Expression.sameBody_eq_true_iff body, and_assoc]
  | .call name arguments, b => by
    cases b <;> simp [Expression.same, Expression.sameAll_eq_true_iff arguments]

theorem Expression.sameBody_eq_true_iff :
    ∀ a b : Option Expression, Expression.sameBody a b = true ↔ a = b
  | none, b => by cases b <;> simp [Expression.sameBody]
  | some a, b => by cases b <;> simp [Expression.sameBody, Expression.same_eq_true_iff a]

theorem Expression.sameAll_eq_true_iff :
    ∀ a b : List Expression, Expression.sameAll a b = true ↔ a = b
  | [], b => by cases b <;> simp [Expression.sameAll]
  | a :: as, b => by
    cases b <;>
      simp [Expression.sameAll, Expression.same_eq_true_iff a, Expression.sameAll_eq_true_iff as]

theorem OptionValue.same_eq_true_iff : ∀ a b : OptionValue, a.same b = true ↔ a = b
  | .filter a, b => by cases b <;> simp [OptionValue.same, Expression.same_eq_true_iff a]
  | .orderBy a, b => by cases b <;> simp [OptionValue.same, OrderByItem.sameAll_eq_true_iff a]
  | .select a, b => by cases b <;> simp [OptionValue.same]
  | .expand a, b => by cases b <;> simp [OptionValue.same, ExpandItem.sameAll_eq_true_iff a]
  | .top a, b => by cases b <;> simp [OptionValue.same]
  | .skip a, b => by cases b <;> simp [OptionValue.same]
  | .count a, b => by cases b <;> simp [OptionValue.same]
  | .search a, b => by cases b <;> simp [OptionValue.same]
  | .apply a, b => by cases b <;> simp [OptionValue.same]
  | .format a, b => by cases b <;> simp [OptionValue.same]
  | .levels a, b => by cases b <;> simp [OptionValue.same]

theorem ParsedOption.same_eq_true_iff : ∀ a b : ParsedOption, a.same b = true ↔ a = b
  | .mk name value, .mk name' value' => by
    simp [ParsedOption.same, OptionValue.same_eq_true_iff value]

theorem ParsedOption.sameAll_eq_true_iff :
    ∀ a b : List ParsedOption, ParsedOption.sameAll a b = true ↔ a = b
  | [], b => by cases b <;> simp [ParsedOption.sameAll]
  | a :: as, b => by
    cases b <;>
      simp [ParsedOption.sameAll, ParsedOption.same_eq_true_iff a,
        ParsedOption.sameAll_eq_true_iff as]

theorem OrderByItem.same_eq_true_iff : ∀ a b : OrderByItem, a.same b = true ↔ a = b
  | .mk expression direction, .mk expression' direction' => by
    simp [OrderByItem.same, Expression.same_eq_true_iff expression]

theorem OrderByItem.sameAll_eq_true_iff :
    ∀ a b : List OrderByItem, OrderByItem.sameAll a b = true ↔ a = b
  | [], b => by cases b <;> simp [OrderByItem.sameAll]
  | a :: as, b => by
    cases b <;>
      simp [OrderByItem.sameAll, OrderByItem.same_eq_true_iff a, OrderByItem.sameAll_eq_true_iff as]

theorem ExpandItem.same_eq_true_iff : ∀ a b : ExpandItem, a.same b = true ↔ a = b
  | .mk target options, .mk target' options' => by
    simp [ExpandItem.same, ParsedOption.sameAll_eq_true_iff options]

theorem ExpandItem.sameAll_eq_true_iff :
    ∀ a b : List ExpandItem, ExpandItem.sameAll a b = true ↔ a = b
  | [], b => by cases b <;> simp [ExpandItem.sameAll]
  | a :: as, b => by
    cases b <;>
      simp [ExpandItem.sameAll, ExpandItem.same_eq_true_iff a, ExpandItem.sameAll_eq_true_iff as]

end

instance : DecidableEq Expression := fun a b =>
  decidable_of_iff (a.same b = true) (Expression.same_eq_true_iff a b)

instance : DecidableEq OptionValue := fun a b =>
  decidable_of_iff (a.same b = true) (OptionValue.same_eq_true_iff a b)

instance : DecidableEq ParsedOption := fun a b =>
  decidable_of_iff (a.same b = true) (ParsedOption.same_eq_true_iff a b)

instance : DecidableEq OrderByItem := fun a b =>
  decidable_of_iff (a.same b = true) (OrderByItem.same_eq_true_iff a b)

instance : DecidableEq ExpandItem := fun a b =>
  decidable_of_iff (a.same b = true) (ExpandItem.same_eq_true_iff a b)

end ODataRequest
