import ODataRequest.Path.Resource
import ODataRequest.Query.Canonical

/-! The check of a request against a model: every entity set and navigation of the path, every
expansion and every collection that is counted, narrowed by options or ranged over has to be known
to the model, and a counted or ranged one has to be a collection. A check keeps the questions that
it put to the model, also when it fails. -/

namespace ODataRequest

/-- What a navigation leads to. -/
structure ElementType where
  name : Text
  isCollection : Bool
  deriving DecidableEq

namespace ElementType

def render (type : ElementType) : Text :=
  if type.isCollection then "Collection(".toList ++ type.name ++ [')'] else type.name

def single (type : ElementType) : ElementType :=
  { type with isCollection := false }

end ElementType

/-- A description of the navigation in a service: what a name leads to from a type, or from the
service itself. -/
abbrev NavigationModel := (context : Option ElementType) → (name : Text) → Option ElementType

/-- A question put to a model, with its answer. -/
structure Lookup where
  /-- The type that the name was looked up in, none for the service itself. -/
  context : Option ElementType
  name : Text
  answer : Option ElementType
  deriving DecidableEq

/-- Why a model rejects a request. -/
inductive SemanticError where
  | unknownProperty (name : Text) (context : Option Text)
  | notACollection (name : Text)
  deriving DecidableEq

def SemanticError.message : SemanticError → Text
  | .unknownProperty name (some type) =>
    "type '".toList ++ type ++ "' has no navigation property '".toList ++ name ++ "'".toList
  | .unknownProperty name none =>
    "entity container has no entity set '".toList ++ name ++ "'".toList
  | .notACollection name => "'".toList ++ name ++ "' is not a collection".toList

/-- A computation that may put questions to a model and may be rejected; the questions are kept in
order. -/
abbrev Check (α : Type) := ExceptT SemanticError (StateM (List Lookup)) α

namespace Check

/-- The questions that a check puts, and its outcome. -/
def outcome {α : Type} (check : Check α) : List Lookup × Except SemanticError α :=
  let (result, lookups) := check.run.run []
  (lookups, result)

def lookup (model : NavigationModel) (context : Option ElementType) (name : Text) :
    Check ElementType := do
  let answer := model context name
  modify (· ++ [⟨context, name, answer⟩])
  match answer with
  | some type => pure type
  | none => throw (.unknownProperty name (context.map ElementType.name))

/-- What the segments of a path lead to, where the type reached before and the last name looked up
are given; none if the model cannot describe it. -/
def target (model : NavigationModel) : (reached : Option ElementType) → (lastName : Text) →
    List PathSegment → Check (Option ElementType)
  | reached, _, [] => pure reached
  | reached, lastName, segment :: rest =>
    match segment with
    | .entitySet name | .navigation name => do
      let type ← lookup model reached name
      target model (some type) name rest
    | .key _ => target model (reached.map ElementType.single) lastName rest
    | .count =>
      if reached.any fun type => !type.isCollection then throw (.notACollection lastName)
      else target model reached lastName rest
    | .boundOperation _ => pure none
    | .ref | .value | .metadata | .batch => target model reached lastName rest

/-- The range variables around a place with what they range over, innermost first. -/
abbrev Binders := List (Text × ElementType)

/-- What a range variable stands for. -/
def Binders.find? (binders : Binders) (name : Text) : Option ElementType :=
  (List.find? (fun binding => binding.1 = name) binders).map Prod.snd

/-- What the names of a path lead to from a type; a qualified name is a cast and keeps the type. -/
def walk (model : NavigationModel) : ElementType → List Text → Check ElementType
  | type, [] => pure type
  | type, name :: rest =>
    if name.contains '.' then walk model type rest
    else do
      let next ← lookup model (some type) name
      walk model next rest

/-- The type that a path starts from; none for an unknown range variable. -/
def origin (it : ElementType) (binders : Binders) (access : PropertyAccess) :
    Option ElementType :=
  match access.qualifier with
  | none => some it
  | some name => if name = implicitVariable then some it else binders.find? name

/-- What a path leads to; none if it starts from an unknown range variable. -/
def resolve (model : NavigationModel) (it : ElementType) (binders : Binders)
    (access : PropertyAccess) : Check (Option ElementType) :=
  match origin it binders access with
  | none => pure none
  | some type => some <$> walk model type access.path

def resolveCollection (model : NavigationModel) (it : ElementType) (binders : Binders)
    (access : PropertyAccess) : Check (Option ElementType) := do
  let resolved ← resolve model it binders access
  if resolved.any fun type => !type.isCollection then throw (.notACollection access.render)
  else pure resolved

/-- What a select item has to be. -/
def selectItem (model : NavigationModel) (it : ElementType) (binders : Binders) :
    SelectItem → Check Unit
  | .all | .path _ => pure ()
  | .count route => do
    let _ ← resolveCollection model it binders route

def selectItems (model : NavigationModel) (it : ElementType) (binders : Binders) :
    List SelectItem → Check Unit
  | [] => pure ()
  | item :: rest => do
    selectItem model it binders item
    selectItems model it binders rest

/-- What the target of an expansion leads to; none where nothing has to be known. -/
def expandTarget (model : NavigationModel) (it : ElementType) (binders : Binders) :
    ExpandTarget → Check (Option ElementType)
  | .all | .allRefs => pure none
  | .count route => resolveCollection model it binders route
  | .path route | .ref route => resolve model it binders route

mutual

/-- What an expression has to be, where bare paths start from a type. -/
def expression (model : NavigationModel) (it : ElementType) (binders : Binders) :
    Expression → Check Unit
  | .literal _ | .access _ | .rangeVariable _ => pure ()
  | .binary _ left right => do
    expression model it binders left
    expression model it binders right
  | .unary _ operand => expression model it binders operand
  | .call _ arguments => expressions model it binders arguments
  | .count collection => do
    let _ ← resolveCollection model it binders collection
  | .subquery collection options => do
    match ← resolveCollection model it binders collection with
    | some element => optionList model element binders options
    | none => pure ()
  | .lambda _ collection binder body => do
    let element ← resolveCollection model it binders collection
    lambdaBody model it binders binder element body

/-- What the body of a lambda has to be. -/
def lambdaBody (model : NavigationModel) (it : ElementType) (binders : Binders)
    (binder : Option Text) (element : Option ElementType) : Option Expression → Check Unit
  | none => pure ()
  | some body =>
    match element, binder with
    | some element, some name => expression model it ((name, element) :: binders) body
    | _, _ => pure ()

def expressions (model : NavigationModel) (it : ElementType) (binders : Binders) :
    List Expression → Check Unit
  | [] => pure ()
  | first :: rest => do
    expression model it binders first
    expressions model it binders rest

def optionValue (model : NavigationModel) (it : ElementType) (binders : Binders) :
    OptionValue → Check Unit
  | .filter condition => expression model it binders condition
  | .orderBy items => sortKeys model it binders items
  | .select items => selectItems model it binders items
  | .expand items => expandItems model it binders items
  | .top _ | .skip _ | .count _ | .search _ | .apply _ | .format _ | .levels _ => pure ()

def option (model : NavigationModel) (it : ElementType) (binders : Binders) :
    ParsedOption → Check Unit
  | .mk _ value => optionValue model it binders value

/-- What options have to be, where bare paths start from a type. -/
def optionList (model : NavigationModel) (it : ElementType) (binders : Binders) :
    List ParsedOption → Check Unit
  | [] => pure ()
  | first :: rest => do
    option model it binders first
    optionList model it binders rest

def sortKey (model : NavigationModel) (it : ElementType) (binders : Binders) :
    OrderByItem → Check Unit
  | .mk key _ => expression model it binders key

def sortKeys (model : NavigationModel) (it : ElementType) (binders : Binders) :
    List OrderByItem → Check Unit
  | [] => pure ()
  | first :: rest => do
    sortKey model it binders first
    sortKeys model it binders rest

/-- What an expansion has to be; its options start from what it expands. -/
def expandItem (model : NavigationModel) (it : ElementType) (binders : Binders) :
    ExpandItem → Check Unit
  | .mk target options => do
    match ← expandTarget model it binders target with
    | some expanded => optionList model expanded binders options
    | none => pure ()

def expandItems (model : NavigationModel) (it : ElementType) (binders : Binders) :
    List ExpandItem → Check Unit
  | [] => pure ()
  | first :: rest => do
    expandItem model it binders first
    expandItems model it binders rest

end

/-- What a request has to be. Options are checked only if the model can describe what the path leads
to. -/
def request (model : NavigationModel) (path : ResourcePath) (options : List ParsedOption) :
    Check Unit := do
  match ← target model none [] path.segments with
  | some type => optionList model type [] options
  | none => pure ()

end Check

end ODataRequest
