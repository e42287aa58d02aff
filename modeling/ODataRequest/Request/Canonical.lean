import ODataRequest.Path.Resource
import ODataRequest.Query.Canonical
import ODataRequest.Query.Equality
import ODataRequest.Service.Root

/-! Canonical request URIs: the service root, the rendered path, and the query options in the order
of the request, every value in canonical text and escaped. -/

namespace ODataRequest

/-- A query option of a canonical request. -/
inductive RequestOption where
  | system (option : ParsedOption)
  | custom (name value : Text)
  deriving DecidableEq

namespace RequestOption

/-- The escaped name of a custom option; the mark of an alias stays bare. -/
def encodedName (name : Text) : Text :=
  match name with
  | '@' :: rest => '@' :: Percent.escape .queryValue rest
  | _ => Percent.escape .queryValue name

/-- The escaped query pair; a custom option without a value is only its name. -/
def encoded : RequestOption → Text
  | .system option => option.name.name ++ '=' :: Percent.escape .queryValue option.value.render
  | .custom name value =>
    encodedName name ++
      if value.isEmpty then [] else '=' :: Percent.escape .queryValue value

def system? : RequestOption → Option ParsedOption
  | .system option => some option
  | .custom _ _ => none

end RequestOption

/-- A canonical request URI with what it was made of. -/
structure CanonicalUri where
  root : ServiceRoot
  path : ResourcePath
  options : List RequestOption
  /-- The text after the service root and its slash. -/
  relative : Text
  deriving DecidableEq

namespace CanonicalUri

/-- The escaped query of options. -/
def renderQuery (options : List RequestOption) : Text :=
  joinTexts '&' (options.map RequestOption.encoded)

/-- The text of a path and options; a question mark only before a query that is not empty. -/
def renderRelative (path : ResourcePath) (options : List RequestOption) (style : KeyStyle) : Text :=
  path.render style ++
    if (renderQuery options).isEmpty then [] else '?' :: renderQuery options

def make (root : ServiceRoot) (path : ResourcePath) (options : List RequestOption)
    (style : KeyStyle) : CanonicalUri :=
  ⟨root, path, options, renderRelative path options style⟩

def render (uri : CanonicalUri) : Text :=
  uri.root.text ++ '/' :: uri.relative

def query? (uri : CanonicalUri) : Option Text :=
  (uri.relative.cutAt? '?').map Prod.snd

/-- The system options, in the order of the request. -/
def systemOptions (uri : CanonicalUri) : List ParsedOption :=
  uri.options.filterMap RequestOption.system?

/-- The order of URIs: that of their texts, character by character, which for UTF-8 is the order of
the bytes. -/
def order (left right : CanonicalUri) : Ordering :=
  compare (left.render.map Char.toNat) (right.render.map Char.toNat)

/-- The URIs in ascending order; equal ones keep their places. -/
def sort (uris : List CanonicalUri) : List CanonicalUri :=
  uris.mergeSort fun left right => (order left right).isLE

/-- The greatest URI, the last one of equals. -/
def greatest? : List CanonicalUri → Option CanonicalUri
  | [] => none
  | first :: rest =>
    some (rest.foldl (fun best uri => if (order best uri).isLE then uri else best) first)

end CanonicalUri

end ODataRequest
