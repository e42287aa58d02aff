import ODataRequest.Text.Percent
import ODataRequest.Url.Basic

/-! The segments of a URL's path: escaped, with dot segments resolved. Drive letters are never
resolved away. -/

namespace ODataRequest.WebUrl

open Url

/-- A character that a URL ignores wherever it stands: a tab or a line break. -/
def isIgnored (c : Char) : Bool :=
  c = '\t' || c = '\n' || c = '\x0d'

def dropIgnored (text : Text) : Text :=
  text.filter (!isIgnored ·)

/-- The bytes escaped in a path. -/
def reservedInPath (byte : UInt8) : Bool :=
  Percent.isUnprintable byte || Percent.isOneOf " \"#<>?`\x7b\x7d".toList byte

/-- A letter with a colon or a bar after it. -/
def isDriveLetter : Text → Bool
  | [letter, mark] => letter.isAlpha && (mark = ':' || mark = '|')
  | _ => false

/-- A drive letter, alone or before a backslash. -/
def beginsWithDrive : Text → Bool
  | letter :: mark :: rest => isDriveLetter [letter, mark] && rest.head?.all (· = '\\')
  | _ => false

/-- The segments without the last one, unless that begins with a drive letter. The segments are
given in reverse. -/
def shorten : List Text → List Text
  | [] => []
  | last :: others => if beginsWithDrive last then last :: others else others

/-- The segments after a raw segment has been added to those before it, which are given in
reverse. -/
def addSegment (isLast : Bool) (before : List Text) (raw : Text) : List Text :=
  let segment := Percent.encode reservedInPath raw
  let ending (segments : List Text) := if isLast then [] :: segments else segments
  if doubleDots.contains segment then ending (shorten before)
  else if singleDots.contains segment then ending before
  else segment :: before

/-- The resolved segments of raw segments, after others that are given in reverse. -/
def resolveSegments : List Text → List Text → List Text
  | before, [] => before.reverse
  | before, [last] => (addSegment true before last).reverse
  | before, raw :: rest => resolveSegments (addSegment false before raw) rest

/-- A slash, or a backslash where that counts as one. -/
def isSlash (special : Bool) (c : Char) : Bool :=
  c = '/' || (special && c = '\\')

/-- The fields between slashes, or between slashes and backslashes. -/
def slashFields (withBackslashes : Bool) (text : Text) : List Text :=
  Text.fields '/' (if withBackslashes then text.map fun c => if c = '\\' then '/' else c else text)

/-- The segments of the text after the slash that begins a path. -/
def pathSegments (isSpecial : Bool) (text : Text) : List Text :=
  resolveSegments [] (slashFields isSpecial text)

end ODataRequest.WebUrl
