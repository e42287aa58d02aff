import ODataRequest.Proofs.Query.WellFormed

/-! The paths in a tree, each with the scopes around it. A path of an expression that fits its scopes
starts from a range variable that is known where it stands, and among the options of a counted
collection it starts from one at all. What is selected or expanded is a path from none. -/

namespace ODataRequest

open Text

namespace Scopes

/-- The innermost scope that is not the body of a lambda. -/
def region : Scopes → Option Scope
  | [] => none
  | .subquery :: _ => some .subquery
  | .expand :: _ => some .expand
  | .lambda _ :: outer => region outer

theorem implicitQualifier_eq_ite (scopes : Scopes) : scopes.implicitQualifier =
    if scopes.region = some .subquery then some implicitVariable else none := by
  induction scopes with
  | nil => rfl
  | cons scope outer ih =>
      cases scope with
      | subquery => rfl
      | expand => rfl
      | lambda binder => exact ih

/-- A path that starts from a range variable known in scopes, if it starts from one, and that does
start from one among the options of a counted collection. -/
structure Resolves (scopes : Scopes) (route : PropertyAccess) : Prop where
  known : ∀ qualifier, route.qualifier = some qualifier →
    qualifier = implicitVariable ∨ scopes.binds qualifier = true
  ranged : scopes.region = some .subquery → route.qualifier.isSome = true

end Scopes

/-- A path in a tree. -/
inductive Reference where
  /-- A path of an expression, with the scopes around it. A range variable on its own is a path
  without members. -/
  | path (scopes : Scopes) (route : PropertyAccess)
  | member (route : PropertyAccess)

/-- A path that its place allows. -/
def Reference.Resolved : Reference → Prop
  | .path scopes route => scopes.Resolves route
  | .member route => route.qualifier = none

/-- The path of a select item that names one. -/
def SelectItem.path? : SelectItem → Option PropertyAccess
  | .all => none
  | .path route | .count route => some route

def SelectItem.references (item : SelectItem) : List Reference :=
  item.path?.toList.map .member

def ExpandTarget.references (target : ExpandTarget) : List Reference :=
  target.path?.toList.map .member

mutual

/-- The paths of an expression, from left to right. -/
def Expression.references : Scopes → Expression → List Reference
  | _, .literal _ => []
  | scopes, .access route => [.path scopes route]
  | scopes, .rangeVariable name => [.path scopes ⟨some name, []⟩]
  | scopes, .binary _ left right => left.references scopes ++ right.references scopes
  | scopes, .unary _ operand => operand.references scopes
  | scopes, .count collection => [.path scopes collection]
  | scopes, .subquery collection options =>
    .path scopes collection :: ParsedOption.referencesAll (.subquery :: scopes) options
  | scopes, .lambda _ collection binder body =>
    .path scopes collection :: Expression.referencesBody scopes binder body
  | scopes, .call _ arguments => Expression.referencesAll scopes arguments

/-- The paths in the body of a lambda, which is in the scope of the binder. -/
def Expression.referencesBody : Scopes → Option Text → Option Expression → List Reference
  | _, _, none => []
  | scopes, binder, some body => body.references (binder.toList.map .lambda ++ scopes)

def Expression.referencesAll : Scopes → List Expression → List Reference
  | _, [] => []
  | scopes, expression :: rest =>
    expression.references scopes ++ Expression.referencesAll scopes rest

def OptionValue.references : Scopes → OptionValue → List Reference
  | scopes, .filter condition => condition.references scopes
  | scopes, .orderBy items => OrderByItem.referencesAll scopes items
  | _, .select items => items.flatMap SelectItem.references
  | scopes, .expand items => ExpandItem.referencesAll scopes items
  | _, .top _ => []
  | _, .skip _ => []
  | _, .count _ => []
  | _, .search _ => []
  | _, .apply _ => []
  | _, .format _ => []
  | _, .levels _ => []

def ParsedOption.references : Scopes → ParsedOption → List Reference
  | scopes, .mk _ value => value.references scopes

def ParsedOption.referencesAll : Scopes → List ParsedOption → List Reference
  | _, [] => []
  | scopes, option :: rest => option.references scopes ++ ParsedOption.referencesAll scopes rest

def OrderByItem.references : Scopes → OrderByItem → List Reference
  | scopes, .mk expression _ => expression.references scopes

def OrderByItem.referencesAll : Scopes → List OrderByItem → List Reference
  | _, [] => []
  | scopes, item :: rest => item.references scopes ++ OrderByItem.referencesAll scopes rest

/-- The paths in an expansion: the target and what its options refer to. -/
def ExpandItem.references : Scopes → ExpandItem → List Reference
  | scopes, .mk target options =>
    target.references ++ ParsedOption.referencesAll (.expand :: scopes) options

def ExpandItem.referencesAll : Scopes → List ExpandItem → List Reference
  | _, [] => []
  | scopes, item :: rest => item.references scopes ++ ExpandItem.referencesAll scopes rest

end

section Lists

variable {scopes : Scopes}

theorem Expression.referencesAll_eq_flatMap (expressions : List Expression) :
    Expression.referencesAll scopes expressions =
      expressions.flatMap (Expression.references scopes) := by
  induction expressions with
  | nil => rfl
  | cons expression rest ih => rw [Expression.referencesAll, ih, List.flatMap_cons]

theorem ParsedOption.references_eq_value (option : ParsedOption) :
    option.references scopes = option.value.references scopes := by
  cases option
  rfl

theorem ParsedOption.referencesAll_eq_flatMap (options : List ParsedOption) :
    ParsedOption.referencesAll scopes options =
      options.flatMap (ParsedOption.references scopes) := by
  induction options with
  | nil => rfl
  | cons option rest ih => rw [ParsedOption.referencesAll, ih, List.flatMap_cons]

theorem OrderByItem.references_eq_expression (item : OrderByItem) :
    item.references scopes = item.expression.references scopes := by
  cases item
  rfl

theorem OrderByItem.referencesAll_eq_flatMap (items : List OrderByItem) :
    OrderByItem.referencesAll scopes items = items.flatMap (OrderByItem.references scopes) := by
  induction items with
  | nil => rfl
  | cons item rest ih => rw [OrderByItem.referencesAll, ih, List.flatMap_cons]

theorem ExpandItem.referencesAll_eq_flatMap (items : List ExpandItem) :
    ExpandItem.referencesAll scopes items = items.flatMap (ExpandItem.references scopes) := by
  induction items with
  | nil => rfl
  | cons item rest ih => rw [ExpandItem.referencesAll, ih, List.flatMap_cons]

end Lists

/-! ### Trees that fit their scopes -/

section Resolved

variable {scopes : Scopes}

theorem known_of_isVariable {name : Text} (h : scopes.isVariable name = true) :
    name = implicitVariable ∨ scopes.binds name = true := by
  simp only [Scopes.isVariable, Bool.and_eq_true, Bool.or_eq_true, decide_eq_true_eq] at h
  exact h.1.1.1

theorem PropertyAccess.Scoped.resolves {route : PropertyAccess} (h : route.Scoped scopes) :
    scopes.Resolves route := by
  constructor
  · intro qualifier hqualifier
    have hbegins := h.begins
    rw [hqualifier] at hbegins
    cases hbegins with
    | ranged hvariable _ => exact known_of_isVariable hvariable
  · intro hregion
    rw [← h.resolved, Scopes.resolve, Scopes.implicitQualifier_eq_ite, if_pos hregion]
    cases route.qualifier <;> rfl

theorem SelectItem.resolved_of_wellFormed {item : SelectItem} (h : item.WellFormed) :
    ∀ reference ∈ item.references, reference.Resolved := by
  cases item with
  | all => exact List.forall_mem_nil _
  | path route => exact List.forall_mem_singleton.mpr h.bare
  | count route => exact List.forall_mem_singleton.mpr h.bare

theorem ExpandTarget.resolved_of_wellFormed {target : ExpandTarget} (h : target.WellFormed) :
    ∀ reference ∈ target.references, reference.Resolved := by
  cases target with
  | all => exact List.forall_mem_nil _
  | allRefs => exact List.forall_mem_nil _
  | path route => exact List.forall_mem_singleton.mpr h.bare
  | count route => exact List.forall_mem_singleton.mpr h.bare
  | ref route => exact List.forall_mem_singleton.mpr h.bare

end Resolved

mutual

/-- Every path of an expression that fits its scopes is one that its place allows. -/
theorem Expression.Fits.resolves : ∀ {scopes : Scopes} {levels : Nat} {expression : Expression},
    expression.Fits scopes levels →
      ∀ reference ∈ expression.references scopes, reference.Resolved
  | _, _, _, .literal _ => by simp [Expression.references]
  | _, _, _, .access hroute _ => by
      rw [Expression.references, List.forall_mem_singleton]
      exact hroute.resolves
  | scopes, _, .rangeVariable name, .rangeVariable h => by
      rw [Expression.references, List.forall_mem_singleton]
      refine ⟨?_, fun _ => rfl⟩
      intro qualifier hqualifier
      cases hqualifier
      exact known_of_isVariable h
  | _, _, _, .binary hleft hright => by
      rw [Expression.references, List.forall_mem_append]
      exact ⟨hleft.resolves, hright.resolves⟩
  | _, _, _, .unary h => by
      rw [Expression.references]
      exact h.resolves
  | _, _, _, .count hroute => by
      rw [Expression.references, List.forall_mem_singleton]
      exact hroute.resolves
  | _, _, _, .subquery hroute hoptions => by
      rw [Expression.references, List.forall_mem_cons]
      exact ⟨hroute.resolves, hoptions.resolves⟩
  | _, _, _, .nonempty hroute => by
      rw [Expression.references, Expression.referencesBody, List.forall_mem_singleton]
      exact hroute.resolves
  | _, _, _, .lambda hroute _ _ hbody => by
      rw [Expression.references, Expression.referencesBody, List.forall_mem_cons]
      exact ⟨hroute.resolves, hbody.resolves⟩
  | _, _, _, .call _ _ harguments => by
      rw [Expression.references, Expression.referencesAll_eq_flatMap, List.forall_mem_flatMap]
      exact fun argument hmem => (harguments argument hmem).resolves

theorem Expression.FitsAt.resolves : ∀ {demanded : Nat} {scopes : Scopes} {levels : Nat}
    {operand : Expression}, operand.FitsAt demanded scopes levels →
      ∀ reference ∈ operand.references scopes, reference.Resolved
  | _, _, _, _, .bare _ h => h.resolves
  | _, _, _, _, .group _ h => h.resolves

/-- Every path in the fitting value of an option is one that its place allows. -/
theorem OptionValue.Fits.resolves : ∀ {scopes : Scopes} {levels : Nat} {option : SystemOption}
    {value : OptionValue}, value.Fits scopes levels option →
      ∀ reference ∈ value.references scopes, reference.Resolved
  | _, _, _, _, .filter h => by
      rw [OptionValue.references]
      exact h.resolves
  | _, _, _, _, .orderBy _ h => by
      rw [OptionValue.references, OrderByItem.referencesAll_eq_flatMap, List.forall_mem_flatMap]
      intro item hmem
      rw [OrderByItem.references_eq_expression]
      exact (h item hmem).resolves
  | _, _, _, _, .select _ h => by
      rw [OptionValue.references, List.forall_mem_flatMap]
      exact fun item hmem => SelectItem.resolved_of_wellFormed (h item hmem)
  | _, _, _, _, .expand _ h => by
      rw [OptionValue.references, ExpandItem.referencesAll_eq_flatMap, List.forall_mem_flatMap]
      exact fun item hmem => (h item hmem).resolves
  | _, _, _, _, .plain h => by
      cases h <;> simp [OptionValue.references]

theorem ParsedOption.AllFit.resolves : ∀ {kind : OptionListKind} {scopes : Scopes} {levels : Nat}
    {options : List ParsedOption}, ParsedOption.AllFit kind scopes levels options →
      ∀ reference ∈ ParsedOption.referencesAll scopes options, reference.Resolved
  | _, _, _, _, .mk _ _ _ h => by
      rw [ParsedOption.referencesAll_eq_flatMap, List.forall_mem_flatMap]
      intro option hmem
      rw [ParsedOption.references_eq_value]
      exact (h option hmem).resolves

theorem ExpandItem.Fits.resolves : ∀ {scopes : Scopes} {levels : Nat} {item : ExpandItem},
    item.Fits scopes levels → ∀ reference ∈ item.references scopes, reference.Resolved
  | _, _, _, .bare htarget => by
      rw [ExpandItem.references, ParsedOption.referencesAll, List.append_nil]
      exact ExpandTarget.resolved_of_wellFormed htarget
  | _, _, _, .options htarget hoptions => by
      rw [ExpandItem.references, List.forall_mem_append]
      exact ⟨ExpandTarget.resolved_of_wellFormed htarget, hoptions.resolves⟩

end

end ODataRequest
