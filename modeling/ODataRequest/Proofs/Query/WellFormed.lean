import ODataRequest.Proofs.Query.Scanning
import ODataRequest.Query.Grammar

/-! The trees that the grammar can give, by the scopes around them and the number of levels they may
nest. An operand that binds looser than its place demands costs one level more, for its
parentheses. The predicates only grow with the number of levels. -/

namespace ODataRequest

open Text Unicode Nesting

/-- The keyword of negation, which never begins an operand as a name. -/
abbrev negation : Text := "not".toList

/-- A name that belongs to neither an alias nor the protocol. -/
def isMember (name : Text) : Bool :=
  Lexeme.isName name && name.head? != some '@' && name.head? != some '$'

/-- A range variable that is known in scopes. -/
def Scopes.isVariable (scopes : Scopes) (name : Text) : Bool :=
  (name = implicitVariable || scopes.binds name) && Lexeme.isName name && name != negation &&
    name.head? != some '@'

namespace PropertyAccess

/-- The ways in which a path can begin: with a range variable in scope, or with a member that is
none. -/
inductive Begins (scopes : Scopes) : Option Text → List Text → Prop where
  | ranged {qualifier : Text} {path : List Text} (hvariable : scopes.isVariable qualifier = true)
      (hpath : path.all isMember = true) : Begins scopes (some qualifier) path
  | member {head : Text} {path : List Text} (hhead : isMember head = true)
      (hfree : scopes.binds head = false) (hnot : head ≠ negation)
      (hpath : path.all isMember = true) : Begins scopes none (head :: path)

/-- A path that names its range variable if its scopes have one for it. -/
structure Scoped (scopes : Scopes) (route : PropertyAccess) : Prop where
  begins : Begins scopes route.qualifier route.path
  resolved : scopes.resolve route.qualifier route.path = route

/-- A path of members from no range variable. -/
structure IsMemberPath (route : PropertyAccess) : Prop where
  bare : route.qualifier = none
  nonempty : route.path ≠ []
  members : route.path.all isMember = true

end PropertyAccess

/-- A select item of member paths. -/
def SelectItem.WellFormed : SelectItem → Prop
  | .all => True
  | .path route => route.IsMemberPath
  | .count route => route.IsMemberPath

def ExpandTarget.WellFormed : ExpandTarget → Prop
  | .all => True
  | .allRefs => True
  | .path route => route.IsMemberPath
  | .count route => route.IsMemberPath
  | .ref route => route.IsMemberPath

/-- A text that is kept as it is: not blank at either end, and closed where other options follow. -/
structure IsVerbatim (scopes : Scopes) (text : Text) : Prop where
  nonempty : text ≠ []
  trimmed : text.trim = text
  closed : scopes ≠ [] → Closed separates text

/-- The value of an option that is not written in the expression grammar. -/
inductive OptionValue.IsPlain (scopes : Scopes) : SystemOption → OptionValue → Prop where
  | top {limit : Nat} (h : limit ≤ Number.maxNatural) : IsPlain scopes .top (.top limit)
  | skip {offset : Nat} (h : offset ≤ Number.maxNatural) : IsPlain scopes .skip (.skip offset)
  | count {wanted : Bool} : IsPlain scopes .count (.count wanted)
  | depth {bound : Nat} (h : bound ≤ Number.maxNatural) :
      IsPlain scopes .levels (.levels (.depth bound))
  | max : IsPlain scopes .levels (.levels .max)
  | search {text : Text} (h : IsVerbatim scopes text) : IsPlain scopes .search (.search text)
  | apply {text : Text} (h : IsVerbatim scopes text) : IsPlain scopes .apply (.apply text)
  | format {text : Text} (h : IsVerbatim scopes text) : IsPlain scopes .format (.format text)

mutual

/-- An expression that a number of levels suffices for. -/
inductive Expression.Fits : Scopes → Nat → Expression → Prop where
  | literal {scopes : Scopes} {levels : Nat} {value : Literal} (h : value.WellFormed) :
      Expression.Fits scopes levels (.literal value)
  | access {scopes : Scopes} {levels : Nat} {route : PropertyAccess} (hroute : route.Scoped scopes)
      (hpath : route.path ≠ []) : Expression.Fits scopes levels (.access route)
  | rangeVariable {scopes : Scopes} {levels : Nat} {name : Text}
      (h : scopes.isVariable name = true) : Expression.Fits scopes levels (.rangeVariable name)
  | binary {scopes : Scopes} {levels : Nat} {op : BinaryOperator} {left right : Expression}
      (hleft : Expression.FitsAt op.precedence scopes levels left)
      (hright : Expression.FitsAt (op.precedence + 1) scopes levels right) :
      Expression.Fits scopes levels (.binary op left right)
  | unary {scopes : Scopes} {levels : Nat} {op : UnaryOperator} {operand : Expression}
      (h : Expression.FitsAt unaryPrecedence scopes levels operand) :
      Expression.Fits scopes (levels + 1) (.unary op operand)
  | count {scopes : Scopes} {levels : Nat} {route : PropertyAccess} (hroute : route.Scoped scopes) :
      Expression.Fits scopes levels (.count route)
  | subquery {scopes : Scopes} {levels : Nat} {route : PropertyAccess} {options : List ParsedOption}
      (hroute : route.Scoped scopes)
      (hoptions : ParsedOption.AllFit .count (.subquery :: scopes) levels options) :
      Expression.Fits scopes (levels + 1) (.subquery route options)
  | nonempty {scopes : Scopes} {levels : Nat} {route : PropertyAccess}
      (hroute : route.Scoped scopes) : Expression.Fits scopes levels (.lambda .any route none none)
  | lambda {scopes : Scopes} {levels : Nat} {kind : LambdaKind} {route : PropertyAccess}
      {binder : Text} {body : Expression} (hroute : route.Scoped scopes)
      (hidentifier : isIdentifier binder = true) (hname : Lexeme.isName binder = true)
      (hbody : Expression.Fits (.lambda binder :: scopes) levels body) :
      Expression.Fits scopes (levels + 1) (.lambda kind route (some binder) (some body))
  | call {scopes : Scopes} {levels : Nat} {function : Text} {arguments : List Expression}
      (hfunction : isMember function = true) (hnot : function ≠ negation)
      (harguments : ∀ argument ∈ arguments, Expression.Fits scopes levels argument) :
      Expression.Fits scopes (levels + 1) (.call function arguments)

/-- An operand of an operator that a number of levels suffices for, its parentheses included. -/
inductive Expression.FitsAt : Nat → Scopes → Nat → Expression → Prop where
  | bare {demanded : Nat} {scopes : Scopes} {levels : Nat} {operand : Expression}
      (hprecedence : demanded ≤ operand.precedence) (h : Expression.Fits scopes levels operand) :
      Expression.FitsAt demanded scopes levels operand
  | group {demanded : Nat} {scopes : Scopes} {levels : Nat} {operand : Expression}
      (hprecedence : operand.precedence < demanded) (h : Expression.Fits scopes levels operand) :
      Expression.FitsAt demanded scopes (levels + 1) operand

/-- The value of an option that a number of levels suffices for. -/
inductive OptionValue.Fits : Scopes → Nat → SystemOption → OptionValue → Prop where
  | filter {scopes : Scopes} {levels : Nat} {condition : Expression}
      (h : Expression.Fits scopes levels condition) :
      OptionValue.Fits scopes levels .filter (.filter condition)
  | orderBy {scopes : Scopes} {levels : Nat} {items : List OrderByItem} (hnonempty : items ≠ [])
      (h : ∀ item ∈ items, Expression.Fits scopes levels item.expression) :
      OptionValue.Fits scopes levels .orderBy (.orderBy items)
  | select {scopes : Scopes} {levels : Nat} {items : List SelectItem} (hnonempty : items ≠ [])
      (h : ∀ item ∈ items, item.WellFormed) : OptionValue.Fits scopes levels .select (.select items)
  | expand {scopes : Scopes} {levels : Nat} {items : List ExpandItem} (hnonempty : items ≠ [])
      (h : ∀ item ∈ items, ExpandItem.Fits scopes levels item) :
      OptionValue.Fits scopes levels .expand (.expand items)
  | plain {scopes : Scopes} {levels : Nat} {option : SystemOption} {value : OptionValue}
      (h : value.IsPlain scopes option) : OptionValue.Fits scopes levels option value

/-- A list of options that a number of levels suffices for. -/
inductive ParsedOption.AllFit : OptionListKind → Scopes → Nat → List ParsedOption → Prop where
  | mk {kind : OptionListKind} {scopes : Scopes} {levels : Nat} {options : List ParsedOption}
      (hnonempty : options ≠ []) (hdistinct : (options.map ParsedOption.name).Nodup)
      (hallowed : ∀ option ∈ options, kind.allows option.name = true)
      (h : ∀ option ∈ options, OptionValue.Fits scopes levels option.name option.value) :
      ParsedOption.AllFit kind scopes levels options

/-- An expansion that a number of levels suffices for. -/
inductive ExpandItem.Fits : Scopes → Nat → ExpandItem → Prop where
  | bare {scopes : Scopes} {levels : Nat} {target : ExpandTarget} (htarget : target.WellFormed) :
      ExpandItem.Fits scopes levels (.mk target [])
  | options {scopes : Scopes} {levels : Nat} {target : ExpandTarget} {options : List ParsedOption}
      (htarget : target.WellFormed)
      (hoptions : ParsedOption.AllFit .expand (.expand :: scopes) levels options) :
      ExpandItem.Fits scopes (levels + 1) (.mk target options)

end

mutual

theorem Expression.Fits.succ : ∀ {scopes : Scopes} {levels : Nat} {expression : Expression},
    expression.Fits scopes levels → expression.Fits scopes (levels + 1)
  | _, _, _, .literal h => .literal h
  | _, _, _, .access hroute hpath => .access hroute hpath
  | _, _, _, .rangeVariable h => .rangeVariable h
  | _, _, _, .binary hleft hright => .binary hleft.succ hright.succ
  | _, _, _, .unary h => .unary h.succ
  | _, _, _, .count hroute => .count hroute
  | _, _, _, .subquery hroute hoptions => .subquery hroute hoptions.succ
  | _, _, _, .nonempty hroute => .nonempty hroute
  | _, _, _, .lambda hroute hidentifier hname hbody => .lambda hroute hidentifier hname hbody.succ
  | _, _, _, .call hfunction hnot harguments =>
    .call hfunction hnot fun argument hmem => (harguments argument hmem).succ

theorem Expression.FitsAt.succ : ∀ {demanded : Nat} {scopes : Scopes} {levels : Nat}
    {operand : Expression}, operand.FitsAt demanded scopes levels →
      operand.FitsAt demanded scopes (levels + 1)
  | _, _, _, _, .bare hprecedence h => .bare hprecedence h.succ
  | _, _, _, _, .group hprecedence h => .group hprecedence h.succ

theorem OptionValue.Fits.succ : ∀ {scopes : Scopes} {levels : Nat} {option : SystemOption}
    {value : OptionValue}, value.Fits scopes levels option → value.Fits scopes (levels + 1) option
  | _, _, _, _, .filter h => .filter h.succ
  | _, _, _, _, .orderBy hnonempty h => .orderBy hnonempty fun item hmem => (h item hmem).succ
  | _, _, _, _, .select hnonempty h => .select hnonempty h
  | _, _, _, _, .expand hnonempty h => .expand hnonempty fun item hmem => (h item hmem).succ
  | _, _, _, _, .plain h => .plain h

theorem ParsedOption.AllFit.succ : ∀ {kind : OptionListKind} {scopes : Scopes} {levels : Nat}
    {options : List ParsedOption}, ParsedOption.AllFit kind scopes levels options →
      ParsedOption.AllFit kind scopes (levels + 1) options
  | _, _, _, _, .mk hnonempty hdistinct hallowed h =>
    .mk hnonempty hdistinct hallowed fun option hmem => (h option hmem).succ

theorem ExpandItem.Fits.succ : ∀ {scopes : Scopes} {levels : Nat} {item : ExpandItem},
    item.Fits scopes levels → item.Fits scopes (levels + 1)
  | _, _, _, .bare htarget => .bare htarget
  | _, _, _, .options htarget hoptions => .options htarget hoptions.succ

end

theorem ParsedOption.AllFit.values {kind : OptionListKind} {scopes : Scopes} {levels : Nat}
    {options : List ParsedOption} (h : ParsedOption.AllFit kind scopes levels options) :
    ∀ option ∈ options, OptionValue.Fits scopes levels option.name option.value := by
  obtain ⟨-, -, -, hvalues⟩ := h
  exact hvalues

theorem ParsedOption.AllFit.isEmpty_eq_false {kind : OptionListKind} {scopes : Scopes} {levels : Nat}
    {options : List ParsedOption} (h : ParsedOption.AllFit kind scopes levels options) :
    options.isEmpty = false := by
  obtain ⟨hnonempty, -, -, -⟩ := h
  exact List.isEmpty_eq_false_iff.mpr hnonempty

end ODataRequest
