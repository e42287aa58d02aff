import ODataRequest.Model.Check
import ODataRequest.Query.Grammar
import ODataRequest.Request.Canonical
import ODataRequest.Request.Query

/-! Building the canonical URI of a raw request: the length is checked, the service root validated
and taken off the request, the query cut into pairs, the path and every option read, and the result,
where a model is at hand, checked against it. The first of these steps that fails gives the
error. -/

namespace ODataRequest

/-- Why a request has no canonical URI. -/
inductive BuildFault where
  | inputTooLong (limit actual : Nat)
  | serviceRoot (e : InvalidServiceRoot)
  | query (e : MalformedOption)
  | path (e : PathError)
  | literal (e : InvalidLiteral)
  | tooComplex (maxDepth : Nat)
  | semantic (e : SemanticError)
  deriving DecidableEq

namespace BuildFault

/-- The fault of an option's value. -/
def ofQueryError : QueryError → BuildFault
  | .malformed e => .query e
  | .literal e => .literal e
  | .tooComplex maxDepth => .tooComplex maxDepth

/-- The wording of the fault itself, none for a request that is too long. -/
def cause? : BuildFault → Option Text
  | .inputTooLong _ _ => none
  | .serviceRoot e => some e.message
  | .query e => some e.message
  | .path e => some e.message
  | .literal e => some e.message
  | .tooComplex maxDepth => some (tooComplexMessage maxDepth)
  | .semantic e => some e.message

/-- What the wording of a build error says before the fault itself. -/
def describe : BuildFault → Text
  | .inputTooLong limit actual =>
    "request length ".toList ++ Text.ofNat actual ++ " exceeds maximum ".toList ++ Text.ofNat limit
  | .serviceRoot _ => "invalid service root: ".toList
  | .query _ => "invalid query option: ".toList
  | .path _ => "invalid resource path: ".toList
  | .literal _ => "invalid literal: ".toList
  | .tooComplex _ => "query too complex: ".toList
  | .semantic _ => "model check failed: ".toList

end BuildFault

/-- A request that has no canonical URI. -/
structure BuildError where
  input : Text
  fault : BuildFault
  deriving DecidableEq

def BuildError.message (e : BuildError) : Text :=
  "failed to build request URI '".toList ++ e.input ++ "': ".toList ++ e.fault.describe ++
    e.fault.cause?.getD []

/-- A request that follows every rule of form, with the service root that it stands under. -/
structure ParsedRequest where
  root : ServiceRoot
  path : ResourcePath
  options : List RequestOption
  deriving DecidableEq

namespace ParsedRequest

/-- A request without the service root that it may begin with. -/
def withoutRoot (root : ServiceRoot) (raw : Text) : Text :=
  match Text.after? root.text raw with
  | some [] => []
  | some (c :: rest) => if c = '/' || c = '?' || c = '#' then c :: rest else raw
  | none => raw

/-- The part of a request that is resolved against the service root: the root is taken off where the
request stands under it, then one slash. -/
def relativePart (root : ServiceRoot) (raw : Text) : Text :=
  match withoutRoot root raw with
  | '/' :: rest => rest
  | relative => relative

/-- The option of a query pair. -/
def readOption (maxDepth : Nat) (pair : QueryPair) : Except BuildFault RequestOption :=
  match pair.name with
  | .system name =>
    match OptionValue.parse name pair.value maxDepth with
    | .ok value => .ok (.system (.mk name value))
    | .error e => .error (.ofQueryError e)
  | .custom name => .ok (.custom name pair.value)

def readOptions (maxDepth : Nat) : List QueryPair → Except BuildFault (List RequestOption)
  | [] => .ok []
  | pair :: pairs => do
    let first ← readOption maxDepth pair
    let rest ← readOptions maxDepth pairs
    .ok (first :: rest)

/-- The parsed form of a raw request. -/
def parse [Url.Parser] (raw : Text) (style : KeyStyle) (settings : Settings) :
    Except BuildFault ParsedRequest := do
  if settings.maxInputLength < raw.utf8Length then
    .error (.inputTooLong settings.maxInputLength raw.utf8Length)
  else
    let root ← (ServiceRoot.parse settings.serviceRoot).mapError .serviceRoot
    let request ← (RawRequest.parse (relativePart root raw)).mapError .query
    let path ← (ResourcePath.parse request.path style).mapError .path
    let options ← readOptions settings.maxNestingDepth request.query
    .ok ⟨root, path, options⟩

def canonical (request : ParsedRequest) (style : KeyStyle) : CanonicalUri :=
  .make request.root request.path request.options style

/-- The questions that the check against a model puts, and its outcome. -/
def check (request : ParsedRequest) (model : NavigationModel) :
    List Lookup × Except SemanticError Unit :=
  (Check.request model request.path (request.options.filterMap RequestOption.system?)).outcome

end ParsedRequest

/-- The canonical URI of a raw request, without a model. -/
def build [Url.Parser] (raw : Text) (style : KeyStyle) (settings : Settings) : Except BuildError CanonicalUri :=
  match ParsedRequest.parse raw style settings with
  | .error fault => .error ⟨raw, fault⟩
  | .ok request => .ok (request.canonical style)

/-- The questions put to a model that may be at hand, and the canonical URI of a raw request. -/
def buildWith [Url.Parser] (model : Option NavigationModel) (raw : Text) (style : KeyStyle)
    (settings : Settings) : List Lookup × Except BuildError CanonicalUri :=
  match ParsedRequest.parse raw style settings with
  | .error fault => ([], .error ⟨raw, fault⟩)
  | .ok request =>
    match model with
    | none => ([], .ok (request.canonical style))
    | some model =>
      match request.check model with
      | (lookups, .ok ()) => (lookups, .ok (request.canonical style))
      | (lookups, .error e) => (lookups, .error ⟨raw, .semantic e⟩)

end ODataRequest
