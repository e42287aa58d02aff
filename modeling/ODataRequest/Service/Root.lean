import ODataRequest.Url.Basic

/-! The service root that every request is resolved against: an absolute hierarchical URL without
query and fragment, kept without slashes at its end. -/

namespace ODataRequest

/-- A service root that was rejected. -/
structure InvalidServiceRoot where
  root : Text
  reason : BaseFault
  deriving DecidableEq

namespace InvalidServiceRoot

def describe (e : InvalidServiceRoot) : Text :=
  match e.reason with
  | .notAbsolute => "not an absolute URI".toList
  | .notHierarchical => "not a hierarchical URI".toList
  | .hasQuery => "service root must not carry a query".toList
  | .hasFragment => "service root must not carry a fragment".toList

def message (e : InvalidServiceRoot) : Text :=
  "'".toList ++ e.root ++ "': ".toList ++ e.describe

end InvalidServiceRoot

/-- A validated service root. -/
structure ServiceRoot where
  /-- The serialized URL without slashes at its end. -/
  text : Text
  deriving DecidableEq

/-- The service root of a text. -/
def ServiceRoot.parse [Url.Parser] (text : Text) : Except InvalidServiceRoot ServiceRoot :=
  match Url.parseBase text with
  | .ok url => .ok ⟨url.render.dropTrailing '/'⟩
  | .error reason => .error ⟨text, reason⟩

/-- What requests are built against. -/
structure Settings where
  /-- The service root as configured; every build validates it. -/
  serviceRoot : Text
  maxNestingDepth : Nat := 32
  maxInputLength : Nat := 8192
  deriving DecidableEq

end ODataRequest
