import ODataRequest.Query.Fault
import ODataRequest.Query.SystemOption
import ODataRequest.Text.Percent

/-! A request cut into its path and its query pairs, with names told apart and values decoded but
not yet read. A value in the expression grammar may hold the separator of pairs within quotes and
parentheses; every other value ends at the next separator. -/

namespace ODataRequest

/-- The name of a query option. -/
inductive QueryOptionName where
  | system (option : SystemOption)
  | custom (name : Text)
  deriving DecidableEq

namespace QueryOptionName

/-- An alias of a parameter. -/
def isAlias : QueryOptionName → Bool
  | .system _ => false
  | .custom name => name.head? = some '@'

def render : QueryOptionName → Text
  | .system option => option.name
  | .custom name => name

/-- The option that a decoded name stands for at the top level of a request. -/
def parse (name : Text) : Except MalformedOption QueryOptionName :=
  if name.isEmpty then .error ⟨name, 0, .optionName, some name⟩
  else if name.head? ≠ some '$' then .ok (.custom name)
  else
    match SystemOption.ofName? name with
    | some .levels => .error ⟨name, 0, .topLevelOption, some name⟩
    | some option => .ok (.system option)
    | none => .error ⟨name, 0, .knownOption, some name⟩

end QueryOptionName

/-- A query pair with its decoded value. -/
structure QueryPair where
  name : QueryOptionName
  /-- The decoded value, not yet read. -/
  value : Text
  deriving DecidableEq

/-- A request cut into path and query. -/
structure RawRequest where
  path : Text
  query : List QueryPair
  deriving DecidableEq

namespace RawRequest

/-- A part of the pair of a name, decoded. -/
def decode (rawName raw : Text) : Except MalformedOption Text :=
  match Percent.unescape raw with
  | .ok text => .ok text
  | .error e => .error ⟨rawName, e.validUpTo, .decodableText, some raw⟩

/-- The text before the first separator of pairs outside quotes and parentheses, and the text from
there on. A surplus closing parenthesis closes nothing. -/
def spanTopLevel : (depth : Nat) → (inQuotes : Bool) → Text → Text × Text
  | _, _, [] => ([], [])
  | depth, inQuotes, c :: rest =>
    let onward (depth : Nat) (inQuotes : Bool) : Text × Text :=
      let (before, after) := spanTopLevel depth inQuotes rest
      (c :: before, after)
    if c = Text.quoteMark then onward depth (!inQuotes)
    else if inQuotes then onward depth inQuotes
    else if c = '(' then onward (depth + 1) inQuotes
    else if c = ')' then onward (depth - 1) inQuotes
    else if c = '&' && depth = 0 then ([], c :: rest)
    else onward depth inQuotes

/-- The raw value of a name at the beginning of a text, and the text from its separator on. -/
def spanValue (name : QueryOptionName) (text : Text) : Text × Text :=
  let plain := (text.takeWhile (· != '&'), text.dropWhile (· != '&'))
  match name with
  | .system option => if option.isExpression then spanTopLevel 0 false text else plain
  | .custom _ => plain

/-- A system option that a request may not repeat. -/
def checkDistinct (seen : List QueryOptionName) (name : QueryOptionName) :
    Except MalformedOption Unit :=
  match name with
  | .system option =>
    if name ∈ seen then .error ⟨option.name, 0, .distinctOption, some option.name⟩ else .ok ()
  | .custom _ => .ok ()

/-- A character of a raw name. -/
def isNameChar (c : Char) : Bool :=
  c != '=' && c != '&'

/-- The pairs of a query text after pairs of the given names, where the fuel bounds their number.
Empty pairs are skipped. -/
def pairs : Nat → List QueryOptionName → Text → Except MalformedOption (List QueryPair)
  | 0, _, _ => .ok []
  | _ + 1, _, [] => .ok []
  | fuel + 1, seen, c :: text => do
    let rawName := (c :: text).takeWhile isNameChar
    let after := (c :: text).dropWhile isNameChar
    if rawName.isEmpty && after.head? ≠ some '=' then pairs fuel seen (after.drop 1)
    else
      let decoded ← decode rawName rawName
      let name ← QueryOptionName.parse decoded
      let (rawValue, rest) :=
        if after.head? = some '=' then spanValue name (after.drop 1) else ([], after)
      checkDistinct seen name
      let value ← decode rawName rawValue
      let others ← pairs fuel (name :: seen) (rest.drop 1)
      .ok (⟨name, value⟩ :: others)

/-- A text cut at the first occurrence of a character, or the whole text and nothing. -/
def cutOrAll (separator : Char) (text : Text) : Text × Text :=
  (text.cutAt? separator).getD (text, [])

/-- The path and the pairs of a relative request; a fragment is dropped. -/
def parse (text : Text) : Except MalformedOption RawRequest := do
  let (withoutFragment, _) := cutOrAll '#' text
  let (path, query) := cutOrAll '?' withoutFragment
  let pairs ← pairs query.length [] query
  .ok ⟨path, pairs⟩

end RawRequest

end ODataRequest
