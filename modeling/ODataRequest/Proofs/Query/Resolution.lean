import ODataRequest.Proofs.Query.References

/-! Paths that leave out the range variable that their scopes have for them. Resolving a tree names the
range variable of every path; a tree that fits its scopes is resolved already. Where a path begins
with a member that is neither a negation nor a range variable, the shorter text of the path is one
that the grammar can read. -/

namespace ODataRequest

open Text

/-- The path with the range variable that its scopes have for it, if it names none. -/
def PropertyAccess.resolved (scopes : Scopes) (route : PropertyAccess) : PropertyAccess :=
  scopes.resolve route.qualifier route.path

mutual

/-- The expression with every path resolved. -/
def Expression.resolved : Scopes → Expression → Expression
  | _, .literal value => .literal value
  | scopes, .access route => .access (route.resolved scopes)
  | _, .rangeVariable name => .rangeVariable name
  | scopes, .binary op left right => .binary op (left.resolved scopes) (right.resolved scopes)
  | scopes, .unary op operand => .unary op (operand.resolved scopes)
  | scopes, .count collection => .count (collection.resolved scopes)
  | scopes, .subquery collection options =>
    .subquery (collection.resolved scopes) (ParsedOption.resolvedAll (.subquery :: scopes) options)
  | scopes, .lambda kind collection binder body =>
    .lambda kind (collection.resolved scopes) binder (Expression.resolvedBody scopes binder body)
  | scopes, .call name arguments => .call name (Expression.resolvedAll scopes arguments)

def Expression.resolvedBody : Scopes → Option Text → Option Expression → Option Expression
  | _, _, none => none
  | scopes, binder, some body => some (body.resolved (binder.toList.map .lambda ++ scopes))

def Expression.resolvedAll : Scopes → List Expression → List Expression
  | _, [] => []
  | scopes, expression :: rest =>
    expression.resolved scopes :: Expression.resolvedAll scopes rest

def OptionValue.resolved : Scopes → OptionValue → OptionValue
  | scopes, .filter condition => .filter (condition.resolved scopes)
  | scopes, .orderBy items => .orderBy (OrderByItem.resolvedAll scopes items)
  | _, .select items => .select items
  | scopes, .expand items => .expand (ExpandItem.resolvedAll scopes items)
  | _, .top limit => .top limit
  | _, .skip offset => .skip offset
  | _, .count wanted => .count wanted
  | _, .search text => .search text
  | _, .apply text => .apply text
  | _, .format text => .format text
  | _, .levels bound => .levels bound

def ParsedOption.resolved : Scopes → ParsedOption → ParsedOption
  | scopes, .mk name value => .mk name (value.resolved scopes)

def ParsedOption.resolvedAll : Scopes → List ParsedOption → List ParsedOption
  | _, [] => []
  | scopes, option :: rest => option.resolved scopes :: ParsedOption.resolvedAll scopes rest

def OrderByItem.resolved : Scopes → OrderByItem → OrderByItem
  | scopes, .mk expression direction => .mk (expression.resolved scopes) direction

def OrderByItem.resolvedAll : Scopes → List OrderByItem → List OrderByItem
  | _, [] => []
  | scopes, item :: rest => item.resolved scopes :: OrderByItem.resolvedAll scopes rest

def ExpandItem.resolved : Scopes → ExpandItem → ExpandItem
  | scopes, .mk target options =>
    .mk target (ParsedOption.resolvedAll (.expand :: scopes) options)

def ExpandItem.resolvedAll : Scopes → List ExpandItem → List ExpandItem
  | _, [] => []
  | scopes, item :: rest => item.resolved scopes :: ExpandItem.resolvedAll scopes rest

end

section Lists

variable {scopes : Scopes}

theorem Expression.resolvedAll_eq_map (expressions : List Expression) :
    Expression.resolvedAll scopes expressions = expressions.map (Expression.resolved scopes) := by
  induction expressions with
  | nil => rfl
  | cons expression rest ih => rw [Expression.resolvedAll, ih, List.map_cons]

theorem ParsedOption.resolvedAll_eq_map (options : List ParsedOption) :
    ParsedOption.resolvedAll scopes options = options.map (ParsedOption.resolved scopes) := by
  induction options with
  | nil => rfl
  | cons option rest ih => rw [ParsedOption.resolvedAll, ih, List.map_cons]

theorem OrderByItem.resolvedAll_eq_map (items : List OrderByItem) :
    OrderByItem.resolvedAll scopes items = items.map (OrderByItem.resolved scopes) := by
  induction items with
  | nil => rfl
  | cons item rest ih => rw [OrderByItem.resolvedAll, ih, List.map_cons]

theorem ExpandItem.resolvedAll_eq_map (items : List ExpandItem) :
    ExpandItem.resolvedAll scopes items = items.map (ExpandItem.resolved scopes) := by
  induction items with
  | nil => rfl
  | cons item rest ih => rw [ExpandItem.resolvedAll, ih, List.map_cons]

@[simp]
theorem Expression.precedence_resolved (expression : Expression) :
    (expression.resolved scopes).precedence = expression.precedence := by
  cases expression <;> rfl

@[simp]
theorem ParsedOption.name_resolved (option : ParsedOption) :
    (option.resolved scopes).name = option.name := by
  cases option
  rfl

end Lists

/-! ### Trees that are resolved already -/

theorem map_eq_self {α : Type} {f : α → α} {items : List α} (h : ∀ item ∈ items, f item = item) :
    items.map f = items :=
  (List.map_congr_left h).trans (List.map_id items)

mutual

/-- An expression that fits its scopes names all its range variables. -/
theorem Expression.Fits.resolved_eq : ∀ {scopes : Scopes} {levels : Nat} {expression : Expression},
    expression.Fits scopes levels → expression.resolved scopes = expression
  | _, _, _, .literal _ => rfl
  | _, _, _, .access hroute _ => congrArg Expression.access hroute.resolved
  | _, _, _, .rangeVariable _ => rfl
  | _, _, _, .binary hleft hright => by
      rw [Expression.resolved, hleft.resolved_eq, hright.resolved_eq]
  | _, _, _, .unary h => by
      rw [Expression.resolved, h.resolved_eq]
  | _, _, _, .count hroute => congrArg Expression.count hroute.resolved
  | _, _, .subquery route options, .subquery hroute hoptions => by
      have hroute' : route.resolved _ = route := hroute.resolved
      rw [Expression.resolved, hroute', hoptions.resolved_eq]
  | _, _, _, .nonempty hroute =>
    congrArg (Expression.lambda .any · none none) hroute.resolved
  | _, _, .lambda kind route _ _, .lambda hroute _ _ hbody => by
      have hroute' : route.resolved _ = route := hroute.resolved
      rw [Expression.resolved, Expression.resolvedBody, hroute']
      exact congrArg (Expression.lambda kind route _ <| some ·) hbody.resolved_eq
  | _, _, _, .call _ _ harguments => by
      rw [Expression.resolved, Expression.resolvedAll_eq_map,
        map_eq_self fun argument hmem => (harguments argument hmem).resolved_eq]

theorem Expression.FitsAt.resolved_eq : ∀ {demanded : Nat} {scopes : Scopes} {levels : Nat}
    {operand : Expression}, operand.FitsAt demanded scopes levels →
      operand.resolved scopes = operand
  | _, _, _, _, .bare _ h => h.resolved_eq
  | _, _, _, _, .group _ h => h.resolved_eq

theorem OptionValue.Fits.resolved_eq : ∀ {scopes : Scopes} {levels : Nat} {option : SystemOption}
    {value : OptionValue}, value.Fits scopes levels option → value.resolved scopes = value
  | _, _, _, _, .filter h => congrArg OptionValue.filter h.resolved_eq
  | _, _, _, .orderBy items, .orderBy _ h => by
      rw [OptionValue.resolved, OrderByItem.resolvedAll_eq_map, map_eq_self]
      intro item hmem
      obtain ⟨key, direction⟩ := item
      exact congrArg (OrderByItem.mk · direction) (h _ hmem).resolved_eq
  | _, _, _, _, .select _ _ => rfl
  | _, _, _, _, .expand _ h => by
      rw [OptionValue.resolved, ExpandItem.resolvedAll_eq_map,
        map_eq_self fun item hmem => (h item hmem).resolved_eq]
  | _, _, _, _, .plain h => by
      cases h <;> rfl

theorem ParsedOption.AllFit.resolved_eq : ∀ {kind : OptionListKind} {scopes : Scopes} {levels : Nat}
    {options : List ParsedOption}, ParsedOption.AllFit kind scopes levels options →
      ParsedOption.resolvedAll scopes options = options
  | _, _, _, _, .mk _ _ _ h => by
      rw [ParsedOption.resolvedAll_eq_map, map_eq_self]
      intro option hmem
      obtain ⟨name, value⟩ := option
      exact congrArg (ParsedOption.mk name) (h _ hmem).resolved_eq

theorem ExpandItem.Fits.resolved_eq : ∀ {scopes : Scopes} {levels : Nat} {item : ExpandItem},
    item.Fits scopes levels → item.resolved scopes = item
  | _, _, _, .bare _ => rfl
  | _, _, _, .options _ hoptions => by
      rw [ExpandItem.resolved, hoptions.resolved_eq]

end

theorem Expression.eq_literal_of_resolved {scopes : Scopes} {expression : Expression} {value : Literal}
    (h : expression.resolved scopes = .literal value) : expression = .literal value := by
  cases expression with
  | literal found => exact h
  | _ => cases h

/-- A lambda that fits once it is resolved is empty, or has a binder and a body that fits. -/
theorem Expression.lambda_of_resolved {scopes : Scopes} {levels : Nat} {kind : LambdaKind}
    {route : PropertyAccess} {binder : Option Text} {body : Option Expression}
    (h : ((Expression.lambda kind route binder body).resolved scopes).Fits scopes levels) :
    (route.resolved scopes).Scoped scopes ∧
      ((kind = .any ∧ binder = none ∧ body = none) ∨
        ∃ name inside below, binder = some name ∧ body = some inside ∧ levels = below + 1 ∧
          isIdentifier name = true ∧ Lexeme.isName name = true ∧
          (inside.resolved (.lambda name :: scopes)).Fits (.lambda name :: scopes) below) := by
  cases binder with
  | none =>
      cases body with
      | none =>
          cases h with
          | nonempty hroute => exact ⟨hroute, Or.inl ⟨rfl, rfl, rfl⟩⟩
      | some inside => cases h
  | some name =>
      cases body with
      | none => cases h
      | some inside =>
          cases h with
          | lambda hroute hidentifier hname hbody =>
              exact ⟨hroute, Or.inr ⟨name, inside, _, rfl, rfl, rfl, hidentifier, hname, hbody⟩⟩

/-! ### Paths without their range variable -/

/-- Members that a path can begin with where it names no range variable: the first is neither a
negation nor a range variable of a lambda. -/
def Scopes.AllowsBare (scopes : Scopes) : List Text → Prop
  | [] => False
  | head :: _ => head ≠ negation ∧ scopes.binds head = false

instance (scopes : Scopes) : DecidablePred scopes.AllowsBare
  | [] => inferInstanceAs (Decidable False)
  | head :: _ => inferInstanceAs (Decidable (head ≠ negation ∧ scopes.binds head = false))

/-- A path that the grammar reads as the path it is resolved to. Among the options of a counted
collection the implicit variable may be left out before members that can do without it. -/
def Reference.Readable : Reference → Prop
  | .path scopes route =>
    scopes.region = some .subquery → route.qualifier = none → scopes.AllowsBare route.path
  | .member _ => True

instance : DecidablePred Reference.Readable
  | .path scopes route => inferInstanceAs (Decidable
      (scopes.region = some .subquery → route.qualifier = none → scopes.AllowsBare route.path))
  | .member _ => inferInstanceAs (Decidable True)

theorem Reference.Resolved.readable {reference : Reference} (h : reference.Resolved) :
    reference.Readable := by
  cases reference with
  | path scopes route =>
      intro hregion hbare
      have hranged := h.ranged hregion
      rw [hbare] at hranged
      cases hranged
  | member route => exact trivial

/-- A readable path begins as a path can begin if the path that it is resolved to does. -/
theorem Reference.Readable.begins {scopes : Scopes} {route : PropertyAccess}
    (h : (Reference.path scopes route).Readable) (hroute : (route.resolved scopes).Scoped scopes) :
    PropertyAccess.Begins scopes route.qualifier route.path := by
  have hbegins := hroute.begins
  rw [PropertyAccess.resolved, Scopes.resolve, Scopes.implicitQualifier_eq_ite] at hbegins
  obtain ⟨qualifier, path⟩ := route
  cases qualifier with
  | some qualifier => exact hbegins
  | none =>
      by_cases hregion : scopes.region = some .subquery
      · have hbare : scopes.AllowsBare path := h hregion rfl
        rw [if_pos hregion] at hbegins
        cases path with
        | nil => exact hbare.elim
        | cons head members =>
            cases hbegins with
            | ranged _ hmembers =>
                rw [List.all_cons, Bool.and_eq_true] at hmembers
                exact .member hmembers.1 hbare.2 hbare.1 hmembers.2
      · rw [if_neg hregion] at hbegins
        exact hbegins

end ODataRequest
