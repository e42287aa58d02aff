import ODataRequest.Url.Basic

/-! Absolute URLs in parsed form, and their serialization. -/

namespace ODataRequest

/-- What stands between the two slashes and the path of a URL. -/
structure Authority where
  credentials : Option Text
  host : Text
  /-- The port, unless it is the scheme's own. -/
  port : Option Nat
  deriving DecidableEq

/-- The path of a URL. -/
inductive UrlPath where
  /-- A path that no slash begins, so that the URL cannot be the base of others. -/
  | rootless (text : Text)
  | rooted (segments : List Text)
  deriving DecidableEq

/-- An absolute URL. -/
structure WebUrl where
  scheme : Text
  authority : Option Authority
  path : UrlPath
  query : Option Text
  fragment : Option Text
  deriving DecidableEq

def Authority.render (authority : Authority) : Text :=
  (match authority.credentials with
    | some credentials => credentials ++ ['@']
    | none => []) ++
  authority.host ++
  match authority.port with
  | some port => ':' :: Text.ofNat port
  | none => []

def UrlPath.render : UrlPath → Text
  | .rootless text => text
  | .rooted segments => Url.joined segments

namespace WebUrl

/-- A URL whose path begins with a slash or follows an authority. -/
def isHierarchical (url : WebUrl) : Bool :=
  match url.path with
  | .rootless _ => false
  | .rooted _ => true

/-- What stands between the colon after the scheme and the path. A path that would read as an
authority is kept apart by a dot segment. -/
def renderAuthority (url : WebUrl) : Text :=
  match url.authority, url.path with
  | some authority, _ => '/' :: '/' :: authority.render
  | none, .rooted ([] :: _ :: _) => "/.".toList
  | none, _ => []

def render (url : WebUrl) : Text :=
  url.scheme ++ ':' :: url.renderAuthority ++ url.path.render ++
    (match url.query with
      | some query => '?' :: query
      | none => []) ++
    match url.fragment with
    | some fragment => '#' :: fragment
    | none => []

end WebUrl

end ODataRequest
