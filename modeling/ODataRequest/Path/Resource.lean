import ODataRequest.Path.Segment
import ODataRequest.Text.Percent

/-! Resource paths. A path is unescaped, split at the slashes outside keys and quotes, classified
segment by segment, and then checked for the order in which segments may stand. -/

namespace ODataRequest

/-- A path from the service root to a resource. -/
structure ResourcePath where
  /-- The segments, outermost first; none for the service document. -/
  segments : List PathSegment
  deriving DecidableEq

namespace ResourcePath

/-- The segments of an unescaped path: the texts between the slashes outside parentheses and quotes.
The segment read so far is given in reverse. -/
def splitSegments : (current : Text) → (depth : Nat) → (inQuotes : Bool) → Text →
    Except PathError (List Text)
  | current, depth, inQuotes, [] =>
    if 0 < depth || inQuotes then .error (.unterminatedKey current.reverse)
    else .ok [current.reverse]
  | current, depth, inQuotes, c :: rest =>
    if c = Text.quoteMark then splitSegments (c :: current) depth (!inQuotes) rest
    else if inQuotes then splitSegments (c :: current) depth inQuotes rest
    else if c = '(' then splitSegments (c :: current) (depth + 1) inQuotes rest
    else if c = ')' then
      match depth with
      | 0 => .error (.invalidKey (c :: current).reverse .unbalanced)
      | depth + 1 => splitSegments (c :: current) depth inQuotes rest
    else if c = '/' && depth = 0 then
      (splitSegments [] depth inQuotes rest).map (current.reverse :: ·)
    else splitSegments (c :: current) depth inQuotes rest

/-- The first character, with its position, that the parts of a dotted name could not have there,
where the parts begin at an offset. An empty part is blamed on a dot. -/
def nameFault? (offset : Nat) : List Text → Option (Nat × Char)
  | [] => none
  | part :: parts =>
    if part.isEmpty then some (offset, '.')
    else
      match Identifier.fault? part with
      | some (position, c) => some (offset + position, c)
      | none => nameFault? (offset + part.length + 1) parts

/-- The segment of a name: the first is an entity set, a later one a navigation or, with a
namespace, an operation. -/
def nameSegment (segment name : Text) (index : Nat) : Except PathError PathSegment :=
  if name.isEmpty then .error (.invalidKey segment .unattached)
  else
    let isQualified := 0 < index && name.contains '.'
    match nameFault? 0 (if isQualified then Text.fields '.' name else [name]) with
    | some (position, c) => .error (.invalidIdentifier segment c position)
    | none =>
      .ok (if index = 0 then .entitySet name
        else if isQualified then .boundOperation name
        else .navigation name)

/-- A literal that cannot be taken for a name, so that it may be a segment of its own. -/
def isSlashLiteral : Literal → Bool
  | .integer _ | .decimal _ | .string _ | .guid _ => true
  | _ => false

/-- The key that a bare segment is, in the slash style after a segment that takes one. -/
def slashKey? (style : KeyStyle) (previous : Option PathSegment) (segment : Text) :
    Option Literal :=
  if style = .slash && previous.any PathSegment.takesKey then
    (Literal.ofText? segment).filter isSlashLiteral
  else none

/-- The classified segments of one text between slashes: two for a name with a key. -/
def classifySegment (style : KeyStyle) (index : Nat) (previous : Option PathSegment)
    (segment : Text) : Except PathError (List PathSegment) :=
  if segment.isEmpty then .error (.emptySegment index)
  else
    match PathSegment.control? segment with
    | some control => .ok [control]
    | none =>
      match Text.cutAt? '(' segment with
      | some (name, keyed) =>
        match Text.before? ')' keyed with
        | none => .error (.invalidKey segment .trailing)
        | some inner => do
          let owner ← nameSegment segment name index
          let key ← KeyPredicate.parse segment inner
          .ok [owner, .key key]
      | none =>
        match slashKey? style previous segment with
        | some key => .ok [.key (.single key)]
        | none => (nameSegment segment segment index).map ([·])

/-- The classified segments with the indices of the texts that they come from, where the segment
before them is given. -/
def classify (style : KeyStyle) : (index : Nat) → (previous : Option PathSegment) → List Text →
    Except PathError (List (Nat × PathSegment))
  | _, _, [] => .ok []
  | index, previous, segment :: rest => do
    let classified ← classifySegment style index previous segment
    let others ← classify style (index + 1) classified.getLast? rest
    .ok (classified.map (index, ·) ++ others)

/-- What is wrong with the place of a segment among `count` texts. -/
def placementFault? (count index : Nat) (previous : Option PathSegment) (segment : PathSegment) :
    Option PlacementFault :=
  match segment with
  | .metadata | .batch => if count = 1 then none else some .notAlone
  | .count | .ref | .value =>
    if index + 1 ≠ count then some .notLast
    else if previous.any segment.appliesTo then none
    else some .noResource
  | .key _ => if previous.any PathSegment.takesKey then none else some .notKeyed
  | .entitySet _ | .navigation _ | .boundOperation _ => none

/-- The order of the segments of `count` texts, after the segment before them. -/
def checkOrder (count : Nat) : (previous : Option PathSegment) → List (Nat × PathSegment) →
    Except PathError Unit
  | _, [] => .ok ()
  | previous, (index, segment) :: rest =>
    match placementFault? count index previous segment with
    | some reason => .error (.misplaced segment.render index reason)
    | none => checkOrder count (some segment) rest

/-- The path of an unescaped, non-empty text. -/
def ofDecoded (style : KeyStyle) (text : Text) : Except PathError ResourcePath := do
  let texts ← splitSegments [] 0 false text
  let classified ← classify style 0 none texts
  checkOrder texts.length none classified
  .ok ⟨classified.map Prod.snd⟩

/-- The path that an escaped text is. Keys in parentheses are read in either style, and a bare
literal as a key only in the slash style. -/
def parse (text : Text) (style : KeyStyle) : Except PathError ResourcePath :=
  if text.isEmpty then .ok ⟨[]⟩
  else
    match Percent.unescape text with
    | .error _ => .error (.invalidEncoding text)
    | .ok decoded => ofDecoded style decoded

def isEmpty (path : ResourcePath) : Bool :=
  path.segments.isEmpty

def isCount (path : ResourcePath) : Bool :=
  path.segments.getLast? = some .count

/-- The escaped text of a segment, and whether it is joined to the text before it without a
slash. -/
def renderSegment (style : KeyStyle) (segment : PathSegment) : Bool × Text :=
  match segment with
  | .key (.single value) =>
    if style = .slash && isSlashLiteral value then (false, Percent.escape .path value.render)
    else (true, Percent.escape .path segment.render)
  | .key (.named _) => (true, Percent.escape .path segment.render)
  | _ => (false, Percent.escape .path segment.render)

/-- The escaped text of a segment that is not the first. -/
def renderLater (style : KeyStyle) (segment : PathSegment) : Text :=
  let (isJoined, text) := renderSegment style segment
  if isJoined then text else '/' :: text

def render (path : ResourcePath) (style : KeyStyle) : Text :=
  match path.segments with
  | [] => []
  | first :: rest => (renderSegment style first).2 ++ rest.flatMap (renderLater style)

end ResourcePath

end ODataRequest
