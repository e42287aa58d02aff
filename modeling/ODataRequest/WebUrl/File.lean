import ODataRequest.WebUrl.Host
import ODataRequest.WebUrl.Segments

/-! The places of files. A drive letter at the beginning of the path is a drive of this machine, so
it takes the host away; an empty segment before it keeps it from being at the beginning, although
empty segments do not stay there. -/

namespace ODataRequest.WebUrl

/-- The place of a file. -/
structure FileLocation where
  host : Text
  /-- The segments of the path, in reverse as long as the path is being read. -/
  segments : List Text
  deriving DecidableEq

namespace FileLocation

/-- The first characters of a text that are not ignored, and the text after them. -/
def splitKept : Nat → Text → Text × Text
  | count + 1, c :: rest =>
    if isIgnored c then splitKept (count + 1) rest
    else
      let (kept, after) := splitKept count rest
      (c :: kept, after)
  | _, text => ([], text)

/-- The drive letter with its colon and the rest of a raw segment, if ignored characters lie between
them. -/
def cutDrive? (raw : Text) : Option (Text × Text) :=
  match splitKept 2 raw with
  | ([letter, ':'], next :: rest) =>
    if letter.isAlpha && isIgnored next && !(dropIgnored rest).isEmpty then
      some ([letter, ':'], dropIgnored rest)
    else none
  | _ => none

/-- The place after the first segment of its path. A drive letter gets its colon and takes the host
away. One that ignored characters cut off from the rest is a segment for itself and leaves the host;
the rest is a segment too, even if it consists of dots. -/
def addFirst (isLast : Bool) (file : FileLocation) (raw : Text) : FileLocation :=
  match cutDrive? raw with
  | some (drive, rest) => { file with segments := [Percent.encode reservedInPath rest, drive] }
  | none =>
    let segment := dropIgnored raw
    if isDriveLetter segment then ⟨[], [segment.take 1 ++ [':']]⟩
    else { file with segments := addSegment isLast [] segment }

/-- The place after one more segment of its path. -/
def add (isLast : Bool) (file : FileLocation) (raw : Text) : FileLocation :=
  if file.segments.isEmpty then file.addFirst isLast raw
  else { file with segments := addSegment isLast file.segments (dropIgnored raw) }

/-- The place after the remaining segments of its path. -/
def addAll : FileLocation → List Text → FileLocation
  | file, [] => file
  | file, [last] => file.add true last
  | file, raw :: rest => addAll (file.add false raw) rest

/-- The segments without the empty ones at the beginning, but at least one segment. -/
def dropLeadingEmpty : List Text → List Text
  | [] :: segment :: rest => dropLeadingEmpty (segment :: rest)
  | segments => segments

/-- The place of the text after the slash that begins a path, on a host unless a drive takes that
away. -/
def ofPath (host text : Text) : FileLocation :=
  let file := addAll ⟨host, []⟩ (slashFields true text)
  { file with segments := dropLeadingEmpty file.segments.reverse }

/-- The text after the slash that it begins with. -/
def afterSlash? (text : Text) : Option Text :=
  match text.dropWhile isIgnored with
  | c :: rest => if isSlash true c then some rest else none
  | [] => none

/-- The host of a file, empty for this machine. -/
def host? (text : Text) : Option Text :=
  if text.isEmpty then some []
  else (Host.parse? text).map fun host => if host = "localhost".toList then [] else host

/-- The place that the text after two slashes gives. A drive letter is no host. -/
def ofAuthority? (text : Text) : Option FileLocation :=
  let hostText := dropIgnored (text.takeWhile (!isSlash true ·))
  let path := text.dropWhile (!isSlash true ·)
  if isDriveLetter hostText then some (ofPath [] text)
  else (host? hostText).map fun host => ofPath host (if host.isEmpty then path else path.drop 1)

/-- The place that a URL gives after the colon. -/
def parse? (text : Text) : Option FileLocation :=
  match afterSlash? text with
  | none => some (ofPath [] text)
  | some rest =>
    match afterSlash? rest with
    | none => some (ofPath [] rest)
    | some rest => ofAuthority? rest

end FileLocation

end ODataRequest.WebUrl
