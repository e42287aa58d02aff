import ODataRequest.Text.Basic

/-! Absolute URLs. The library does not read them itself: a parser is given to it, and all that it knows of
a URL is what the parser tells. Requests are resolved against hierarchical URLs without query and
fragment, and links are appended to them. -/

namespace ODataRequest

/-- What a parser tells of an absolute URL. -/
structure Url where
  /-- The serialization. -/
  render : Text
  /-- Whether the path is made of segments, as for a URL that others can be relative to. -/
  isHierarchical : Bool
  query : Option Text
  fragment : Option Text
  deriving DecidableEq

namespace Url

/-- A parser of absolute URLs. -/
class Parser where
  parse? : Text → Option Url

export Parser (parse?)

/-- The segments that stand for the one they are in. -/
def singleDots : List Text :=
  [".".toList, "%2e".toList, "%2E".toList]

/-- The segments that stand for the one above. -/
def doubleDots : List Text :=
  ["..".toList, ".%2e".toList, ".%2E".toList, "%2e.".toList, "%2E.".toList, "%2e%2e".toList,
    "%2e%2E".toList, "%2E%2e".toList, "%2E%2E".toList]

/-- Segments with a slash before each. -/
def joined (segments : List Text) : Text :=
  segments.flatMap ('/' :: ·)

end Url

/-- Why paths cannot be appended to a URL. -/
inductive BaseFault where
  | notAbsolute | notHierarchical | hasQuery | hasFragment
  deriving DecidableEq

/-- The URL of a text that paths can be appended to. -/
def Url.parseBase [Url.Parser] (text : Text) : Except BaseFault Url :=
  match Url.parse? text with
  | none => .error .notAbsolute
  | some url =>
    if !url.isHierarchical then .error .notHierarchical
    else if url.query.isSome then .error .hasQuery
    else if url.fragment.isSome then .error .hasFragment
    else .ok url

end ODataRequest
