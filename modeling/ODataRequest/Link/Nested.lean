import ODataRequest.Link.Conventional
import ODataRequest.Text.Described

/-! Navigation properties in a response, with a navigation link and an association link that are
each given, or computed by an attached source when they are first read. A computation may have effects
of its own, so reading is stated for any monad. -/

namespace ODataRequest

/-! ### Deferred links -/

/-- A link together with where it came from. -/
inductive DeferredLink where
  | unset
  /-- A link that was given; it is never computed again. -/
  | explicit (url : Url)
  | computed (url : Url)
  deriving DecidableEq

/-- What reading a link gives. -/
structure LinkRead where
  /-- The link, none if there is none and none could be computed. -/
  url : Option Url
  isFresh : Bool
  deriving DecidableEq

namespace DeferredLink

/-- The link, if there is one. -/
def url? : DeferredLink → Option Url
  | .unset => none
  | .explicit url | .computed url => some url

def isSet (link : DeferredLink) : Bool :=
  link.url?.isSome

def isExplicit : DeferredLink → Bool
  | .explicit _ => true
  | _ => false

/-- The link after one is given, which replaces any other. -/
def set (_ : DeferredLink) (url : Url) : DeferredLink :=
  .explicit url

/-- The reading of a link and the link after it. Only an unset link is computed, and what is
computed is kept. -/
def read {m : Type → Type} [Monad m] (link : DeferredLink) (compute : m (Option Url)) :
    m (LinkRead × DeferredLink) :=
  match link with
  | .unset => do
    match ← compute with
    | some url => pure (⟨some url, true⟩, .computed url)
    | none => pure (⟨none, false⟩, .unset)
  | .explicit url => pure (⟨some url, false⟩, .explicit url)
  | .computed url => pure (⟨some url, false⟩, .computed url)

end DeferredLink

/-! ### Navigation properties -/

/-- A navigation property with its links. -/
structure NestedResource (m : Type → Type) where
  name : Text
  isCollection : Option Bool := none
  url : DeferredLink := .unset
  association : DeferredLink := .unset
  context : Option Url := none
  /-- The source that missing links are computed by. -/
  source : Option (LinkSource m) := none

namespace NestedResource

variable {m : Type → Type} [Monad m]

/-- What a source says of a link, nothing without a source. -/
def ask (resource : NestedResource m) (link : LinkSource m → Text → m (Option Url)) :
    m (Option Url) :=
  match resource.source with
  | some source => link source resource.name
  | none => pure none

/-- The reading of the navigation link, and the property after it. -/
def readUrl (resource : NestedResource m) : m (LinkRead × NestedResource m) := do
  let (read, url) ← resource.url.read (resource.ask LinkSource.navigationLink)
  pure (read, { resource with url })

def readAssociation (resource : NestedResource m) : m (LinkRead × NestedResource m) := do
  let (read, association) ← resource.association.read (resource.ask LinkSource.associationLink)
  pure (read, { resource with association })

omit [Monad m]

def setUrl (resource : NestedResource m) (url : Url) : NestedResource m :=
  { resource with url := resource.url.set url }

def setAssociation (resource : NestedResource m) (url : Url) : NestedResource m :=
  { resource with association := resource.association.set url }

def setContext (resource : NestedResource m) (url : Url) : NestedResource m :=
  { resource with context := some url }

def attach (resource : NestedResource m) (source : LinkSource m) : NestedResource m :=
  { resource with source := some source }

def setIsCollection (resource : NestedResource m) (isCollection : Bool) : NestedResource m :=
  { resource with isCollection := some isCollection }

def describeIsCollection : Option Bool → Text
  | none => "None".toList
  | some true => "Some(true)".toList
  | some false => "Some(false)".toList

def describeUnset (resource : NestedResource m) : Text :=
  "NestedResourceInfo \x7b name: ".toList ++ Text.inDoubleQuotes resource.name ++
    ", is_collection: ".toList ++ describeIsCollection resource.isCollection ++
    ", url: Unset, association_link_url: Unset, context_url: None, has_metadata_builder: ".toList ++
    (if resource.source.isSome then "true" else "false").toList ++ " \x7d".toList

end NestedResource

end ODataRequest
