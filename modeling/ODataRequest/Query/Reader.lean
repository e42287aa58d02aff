import ODataRequest.Query.Canonical
import ODataRequest.Query.Lexeme

/-! The small readers that the grammar of option values is built from. A reader takes the unread
text and gives a value with the text that it leaves unread. A look at the next tokens consumes
nothing, and a fault among them is reported at once. -/

namespace ODataRequest

/-- A function from the unread text to a value and the text it leaves unread. -/
abbrev Reader (α : Type) := Text → Except Fault (α × Text)

namespace Reader

/-- The fault of a missing expectation at the next token. -/
def unexpected {α : Type} (expected : Expectation) (text : Text) : Except Fault α := do
  match ← Lexeme.next? text with
  | none => .error (.unexpected expected none [])
  | some lexeme => .error (.unexpected expected (some lexeme.text) lexeme.start)

/-- The text after a symbol, if it comes next. -/
def symbol? (symbol : Symbol) (text : Text) : Except Fault (Option Text) := do
  match ← Lexeme.next? text with
  | some ⟨.symbol next, _, rest⟩ => .ok (if next = symbol then some rest else none)
  | _ => .ok none

/-- The text after a given name, if it comes next. -/
def word? (word : Text) (text : Text) : Except Fault (Option Text) := do
  match ← Lexeme.next? text with
  | some ⟨.name next, _, rest⟩ => .ok (if next = word then some rest else none)
  | _ => .ok none

/-- The text after a slash and a given name, if these come next. -/
def controlSegment? (segment : Text) (text : Text) : Except Fault (Option Text) := do
  match ← symbol? .slash text with
  | some rest => word? segment rest
  | none => .ok none

/-- The text after a symbol that must come next. -/
def symbol (symbol : Symbol) (expected : Expectation) (text : Text) : Except Fault Text := do
  match ← symbol? symbol text with
  | some rest => .ok rest
  | none => unexpected expected text

/-- A name that must come next, with the texts from it on and after it. -/
def name (expected : Expectation) (text : Text) : Except Fault (Text × Text × Text) := do
  match ← Lexeme.next? text with
  | some ⟨.name name, start, rest⟩ => .ok (name, start, rest)
  | _ => unexpected expected text

def atEnd (text : Text) : Except Fault Unit := do
  match ← Lexeme.next? text with
  | none => .ok ()
  | some _ => unexpected .endOfInput text

/-- A name that belongs to neither an alias nor the protocol. -/
def checkMember (name start : Text) : Except Fault Unit :=
  if name.head? = some '@' then .error (.unexpected .propertyNameNotAlias (some name) start)
  else if name.head? = some '$' then .error (.unexpected .propertyName (some name) start)
  else .ok ()

/-- The items after the first of a list with commas, where the fuel bounds their number. -/
def moreItems {α : Type} (item : Reader α) : Nat → Reader (List α)
  | 0, text => .ok ([], text)
  | fuel + 1, text => do
    match ← symbol? .comma text with
    | none => .ok ([], text)
    | some rest =>
      let (value, rest) ← item rest
      let (values, rest) ← moreItems item fuel rest
      .ok (value :: values, rest)

/-- One or more items with commas between them. -/
def commaList {α : Type} (item : Reader α) (text : Text) : Except Fault (List α × Text) := do
  let (value, rest) ← item text
  let (values, rest) ← moreItems item rest.length rest
  .ok (value :: values, rest)

/-- The names of a member path, where the fuel bounds the number of slashes. The path ends before a
slash that a name of the protocol follows. -/
def memberNames : Nat → Reader (List Text)
  | fuel, text => do
    let (member, start, rest) ← name .propertyName text
    checkMember member start
    match ← symbol? .slash rest with
    | none => .ok ([member], rest)
    | some after =>
      match ← Lexeme.next? after with
      | some ⟨.name next, _, _⟩ =>
        if next.head? = some '$' then .ok ([member], rest)
        else
          match fuel with
          | 0 => .ok ([member], rest)
          | fuel + 1 => do
            let (members, rest) ← memberNames fuel after
            .ok (member :: members, rest)
      | _ => .ok ([member], rest)

/-- A member path from no range variable. -/
def memberPath (text : Text) : Except Fault (PropertyAccess × Text) := do
  let (members, rest) ← memberNames text.length text
  .ok (.bare members, rest)

/-- The text before the first semicolon, ampersand or surplus closing parenthesis outside quotes and
parentheses, and the text from there on. -/
def spanVerbatim : (depth : Nat) → (inQuotes : Bool) → Text → Text × Text
  | _, _, [] => ([], [])
  | depth, inQuotes, c :: rest =>
    let onward (depth : Nat) (inQuotes : Bool) : Text × Text :=
      let (before, after) := spanVerbatim depth inQuotes rest
      (c :: before, after)
    if c = Text.quoteMark then onward depth (!inQuotes)
    else if inQuotes then onward depth inQuotes
    else if c = '(' then onward (depth + 1) inQuotes
    else if c = ')' then
      match depth with
      | 0 => ([], c :: rest)
      | depth + 1 => onward depth inQuotes
    else if (c = ';' || c = '&') && depth = 0 then ([], c :: rest)
    else onward depth inQuotes

/-- The plain text of an option's value: all that is left, or in a nested list what stands before
the next separator. -/
def plainValue (isNested : Bool) (text : Text) : Text × Text :=
  if isNested then spanVerbatim 0 false text else (text, [])

/-- The plain text of a value that is kept as it is, without white space around it. -/
def verbatim (isNested : Bool) (text : Text) : Except Fault (Text × Text) :=
  let (raw, rest) := plainValue isNested text
  if raw.trim.isEmpty then unexpected .value rest else .ok (raw.trim, rest)

/-- The plain text of a value, read as a literal of some form. -/
def plainLiteral {α : Type} (isNested : Bool) (parse : Text → Except InvalidLiteral α)
    (text : Text) : Except Fault (α × Text) :=
  let (raw, rest) := plainValue isNested text
  match parse raw with
  | .ok value => .ok (value, rest)
  | .error e => .error (.literal e)

end Reader

end ODataRequest
