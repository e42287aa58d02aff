import ODataRequest.Model.Check

/-! What a request demands of a model. A place is described by the names that lead to it, so that the
demands can be listed without asking the model: the names that have to be known, and the places that
have to be collections, in the order in which the request mentions them. The verdict of a model on
such a list is that of its first obligation that is not met. -/

namespace ODataRequest

/-! ### Places -/

/-- A place in a service, by what leads to it. -/
inductive Place where
  | service
  | member (start : Place) (name : Text)
  | element (start : Place)
  /-- What a range variable would stand for that nothing binds. -/
  | unbound (name : Text)
  deriving DecidableEq

namespace Place

/-- What names are looked up in at a place: a type, or nothing at the service itself; none if the
model does not know the place. -/
def context? (model : NavigationModel) : Place → Option (Option ElementType)
  | .service => some none
  | .member start name => (start.context? model).bind fun context => (model context name).map some
  | .element start => (start.context? model).map (Option.map ElementType.single)
  | .unbound _ => none

/-- The place that names lead to, where a qualified name is a cast and leads nowhere else. -/
def along : Place → List Text → Place
  | place, [] => place
  | place, name :: rest =>
    if name.contains '.' then place.along rest else (Place.member place name).along rest

end Place

/-! ### Obligations -/

/-- What a request demands of a model. -/
inductive Obligation where
  | known (start : Place) (name : Text)
  /-- A place, by the text that shows it, is a collection. -/
  | collection (place : Place) (shown : Text)
  deriving DecidableEq

namespace Obligation

/-- Whether a model does what is demanded. -/
def isMet (model : NavigationModel) : Obligation → Bool
  | .known start name => ((Place.member start name).context? model).isSome
  | .collection place _ => (place.context? model).any (Option.any ElementType.isCollection)

/-- What a model is asked for an obligation: one question for a name, and none for a collection. -/
def lookups (model : NavigationModel) : Obligation → List Lookup
  | .known start name =>
    ((start.context? model).map fun context => ⟨context, name, model context name⟩).toList
  | .collection _ _ => []

/-- The error of an obligation that is not met. -/
def error (model : NavigationModel) : Obligation → SemanticError
  | .known start name => .unknownProperty name ((start.context? model).join.map ElementType.name)
  | .collection _ shown => .notACollection shown

/-- The questions and the outcome for obligations that are taken one after the other, up to the first
that is not met. -/
def verdict (model : NavigationModel) : List Obligation → List Lookup × Except SemanticError Unit
  | [] => ([], .ok ())
  | obligation :: rest =>
    if obligation.isMet model then
      (obligation.lookups model ++ (verdict model rest).1, (verdict model rest).2)
    else (obligation.lookups model, .error (obligation.error model))

end Obligation

def Place.obligations : Place → List Text → List Obligation
  | _, [] => []
  | place, name :: rest =>
    if name.contains '.' then place.obligations rest
    else .known place name :: (Place.member place name).obligations rest

/-! ### Resource paths -/

namespace PathSegment

def reach (reached : Place) : PathSegment → Place
  | .entitySet name | .navigation name => .member reached name
  | .key _ => .element reached
  | _ => reached

def shown (lastName : Text) : PathSegment → Text
  | .entitySet name | .navigation name => name
  | _ => lastName

/-- What a segment demands after a place. -/
def obligations (reached : Place) (lastName : Text) : PathSegment → List Obligation
  | .entitySet name | .navigation name => [.known reached name]
  | .count => [.collection reached lastName]
  | _ => []

end PathSegment

namespace ResourcePath

/-- The place that segments lead to. -/
def placeFrom : Place → List PathSegment → Place
  | reached, [] => reached
  | reached, segment :: rest => placeFrom (segment.reach reached) rest

/-- What segments demand. -/
def obligationsFrom : Place → Text → List PathSegment → List Obligation
  | _, _, [] => []
  | reached, lastName, segment :: rest =>
    segment.obligations reached lastName ++
      obligationsFrom (segment.reach reached) (segment.shown lastName) rest

/-- The place that a path addresses. -/
def place (path : ResourcePath) : Place :=
  placeFrom .service path.segments

def obligations (path : ResourcePath) : List Obligation :=
  obligationsFrom .service [] path.segments

end ResourcePath

/-! ### Options -/

/-- What the paths of options start from: the target of the innermost list of options, and what the
range variables range over, innermost first. -/
structure Surroundings where
  it : Place
  bindings : List (Text × Place)

namespace Surroundings

/-- The place that a path starts from. -/
def root (around : Surroundings) (route : PropertyAccess) : Place :=
  match route.qualifier with
  | none => around.it
  | some name =>
    if name = implicitVariable then around.it
    else ((around.bindings.find? fun binding => binding.1 = name).map Prod.snd).getD (.unbound name)

/-- The place that a path leads to. -/
def place (around : Surroundings) (route : PropertyAccess) : Place :=
  (around.root route).along route.path

def path (around : Surroundings) (route : PropertyAccess) : List Obligation :=
  (around.root route).obligations route.path

/-- What a path to a collection demands. -/
def collection (around : Surroundings) (route : PropertyAccess) : List Obligation :=
  around.path route ++ [.collection (around.place route) route.render]

/-- The surroundings within a list of options. -/
def within (around : Surroundings) (target : Place) : Surroundings :=
  { around with it := target }

/-- The surroundings in the body of a lambda. -/
def bind (around : Surroundings) (binder : Option Text) (target : Place) : Surroundings :=
  match binder with
  | some name => { around with bindings := (name, target) :: around.bindings }
  | none => around

end Surroundings

def SelectItem.obligations (around : Surroundings) : SelectItem → List Obligation
  | .all | .path _ => []
  | .count route => around.collection route

mutual

/-- What an expression demands: a collection that is counted, narrowed by options or ranged over
comes before what is nested in it. -/
def Expression.obligations (around : Surroundings) : Expression → List Obligation
  | .literal _ | .access _ | .rangeVariable _ => []
  | .binary _ left right => left.obligations around ++ right.obligations around
  | .unary _ operand => operand.obligations around
  | .call _ arguments => Expression.obligationsAll around arguments
  | .count collection => around.collection collection
  | .subquery collection options =>
    around.collection collection ++
      ParsedOption.obligationsAll (around.within (around.place collection)) options
  | .lambda _ collection binder body =>
    around.collection collection ++
      Expression.obligationsBody (around.bind binder (around.place collection)) body

/-- What the body of a lambda demands. -/
def Expression.obligationsBody (around : Surroundings) : Option Expression → List Obligation
  | none => []
  | some body => body.obligations around

def Expression.obligationsAll (around : Surroundings) : List Expression → List Obligation
  | [] => []
  | first :: rest => first.obligations around ++ Expression.obligationsAll around rest

def OptionValue.obligations (around : Surroundings) : OptionValue → List Obligation
  | .filter condition => condition.obligations around
  | .orderBy items => OrderByItem.obligationsAll around items
  | .select items => items.flatMap (SelectItem.obligations around)
  | .expand items => ExpandItem.obligationsAll around items
  | .top _ | .skip _ | .count _ | .search _ | .apply _ | .format _ | .levels _ => []

def ParsedOption.obligations (around : Surroundings) : ParsedOption → List Obligation
  | .mk _ value => value.obligations around

def ParsedOption.obligationsAll (around : Surroundings) : List ParsedOption → List Obligation
  | [] => []
  | first :: rest => first.obligations around ++ ParsedOption.obligationsAll around rest

def OrderByItem.obligations (around : Surroundings) : OrderByItem → List Obligation
  | .mk key _ => key.obligations around

def OrderByItem.obligationsAll (around : Surroundings) : List OrderByItem → List Obligation
  | [] => []
  | first :: rest => first.obligations around ++ OrderByItem.obligationsAll around rest

/-- What an expansion demands, which is nothing if it expands everything: its options then start from
no one place. -/
def ExpandItem.obligations (around : Surroundings) : ExpandItem → List Obligation
  | .mk target options =>
    match target with
    | .all | .allRefs => []
    | .path route | .ref route =>
      around.path route ++ ParsedOption.obligationsAll (around.within (around.place route)) options
    | .count route =>
      around.collection route ++
        ParsedOption.obligationsAll (around.within (around.place route)) options

def ExpandItem.obligationsAll (around : Surroundings) : List ExpandItem → List Obligation
  | [] => []
  | first :: rest => first.obligations around ++ ExpandItem.obligationsAll around rest

end

/-- What a request demands: first its path, then its options, for what the path addresses. -/
def Check.obligations (path : ResourcePath) (options : List ParsedOption) : List Obligation :=
  path.obligations ++ ParsedOption.obligationsAll ⟨path.place, []⟩ options

/-! ### Verdicts -/

namespace Obligation

variable {model : NavigationModel} {obligations before after : List Obligation} {obligation : Obligation}

theorem verdict_append (before after : List Obligation) : verdict model (before ++ after) =
    match (verdict model before).2 with
    | .ok () => ((verdict model before).1 ++ (verdict model after).1, (verdict model after).2)
    | .error e => ((verdict model before).1, .error e) := by
  induction before with
  | nil => rfl
  | cons first before ih =>
      rw [List.cons_append, verdict, verdict]
      split
      · rw [ih]
        cases (verdict model before).2 with
        | ok _ => rw [List.append_assoc]
        | error e => rfl
      · rfl

/-- Obligations that are all met are all asked for, in their order. -/
theorem verdict_of_met (h : ∀ obligation ∈ obligations, obligation.isMet model = true) :
    verdict model obligations = (obligations.flatMap (lookups model), .ok ()) := by
  induction obligations with
  | nil => rfl
  | cons first obligations ih =>
      obtain ⟨hfirst, hrest⟩ := List.forall_mem_cons.mp h
      rw [verdict, if_pos hfirst, ih hrest, List.flatMap_cons]

/-- The first obligation that is not met is the last that is asked for, and gives the error. -/
theorem verdict_of_unmet (hbefore : ∀ obligation ∈ before, obligation.isMet model = true)
    (hunmet : obligation.isMet model = false) : verdict model (before ++ obligation :: after) =
      ((before ++ [obligation]).flatMap (lookups model), .error (obligation.error model)) := by
  rw [verdict_append, verdict_of_met hbefore]
  dsimp only
  rw [verdict, hunmet, if_neg Bool.false_ne_true, List.flatMap_append, List.flatMap_singleton]

theorem verdict_ok_iff : (verdict model obligations).2 = .ok () ↔
    ∀ obligation ∈ obligations, obligation.isMet model = true := by
  constructor
  · intro h
    induction obligations with
    | nil => exact List.forall_mem_nil _
    | cons first obligations ih =>
        rw [verdict] at h
        split at h
        · rename_i hfirst
          exact List.forall_mem_cons.mpr ⟨hfirst, ih h⟩
        · cases h
  · intro h
    rw [verdict_of_met h]

end Obligation

end ODataRequest
