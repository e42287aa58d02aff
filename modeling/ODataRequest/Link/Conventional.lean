import ODataRequest.Request.Canonical

/-! Links by convention: the navigation link of a property is the edit link of its entity with the
escaped name of the property appended, and the association link has the reference segment after
it. -/

namespace ODataRequest

/-- A source of links. -/
structure LinkSource (m : Type → Type) where
  navigationLink : (name : Text) → m (Option Url)
  associationLink : (name : Text) → m (Option Url)

/-- An edit link that links cannot be appended to. -/
structure InvalidEditLink where
  link : Text
  reason : BaseFault
  deriving DecidableEq

namespace InvalidEditLink

def describe (e : InvalidEditLink) : Text :=
  match e.reason with
  | .notAbsolute => "not an absolute URL".toList
  | .notHierarchical => "not a hierarchical URL".toList
  | .hasQuery => "edit link must not carry a query".toList
  | .hasFragment => "edit link must not carry a fragment".toList

def message (e : InvalidEditLink) : Text :=
  "edit link '".toList ++ e.link ++ "' cannot be used to compute links: ".toList ++ e.describe

end InvalidEditLink

/-- Links that follow the convention, from the edit link of an entity. -/
structure ConventionalLinks where
  editLink : Url
  deriving DecidableEq

namespace ConventionalLinks

/-- The conventional links of the entity that an edit link addresses. -/
def ofEditLink [Url.Parser] (text : Text) : Except InvalidEditLink ConventionalLinks :=
  match Url.parseBase text with
  | .ok url => .ok ⟨url⟩
  | .error reason => .error ⟨text, reason⟩

/-- The conventional links of the entity that a canonical request addresses. -/
def ofCanonical [Url.Parser] (uri : CanonicalUri) : Except InvalidEditLink ConventionalLinks :=
  ofEditLink uri.render

/-- The edit link with escaped segments appended. -/
def appendedText (links : ConventionalLinks) (segments : List Text) : Text :=
  links.editLink.render.dropTrailing '/' ++
    segments.flatMap fun segment => '/' :: Percent.escape .path segment

def navigationLink [Url.Parser] (links : ConventionalLinks) (name : Text) : Option Url :=
  Url.parse? (links.appendedText [name])

def associationLink [Url.Parser] (links : ConventionalLinks) (name : Text) : Option Url :=
  Url.parse? (links.appendedText [name, refSegment])

def toSource {m : Type → Type} [Monad m] [Url.Parser] (links : ConventionalLinks) : LinkSource m :=
  ⟨fun name => pure (links.navigationLink name), fun name => pure (links.associationLink name)⟩

end ConventionalLinks

end ODataRequest
