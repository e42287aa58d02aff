import ODataRequest.Query.Fault

/-! The tokens of option values. Tokens are read one at a time from the text that is still unread,
so that a reader can stop between two tokens and take what follows as plain text. -/

namespace ODataRequest

open Unicode

/-- The punctuation of option values. -/
inductive Symbol where
  | slash | openParen | closeParen | comma | colon | semicolon | ampersand | equals | star | minus
  deriving DecidableEq

namespace Symbol

def char : Symbol → Char
  | .slash => '/'
  | .openParen => '('
  | .closeParen => ')'
  | .comma => ','
  | .colon => ':'
  | .semicolon => ';'
  | .ampersand => '&'
  | .equals => '='
  | .star => '*'
  | .minus => '-'

/-- The symbol of a character that always is one; a minus sign may also begin a number. -/
def ofChar? : Char → Option Symbol
  | '/' => some .slash
  | '(' => some .openParen
  | ')' => some .closeParen
  | ',' => some .comma
  | ':' => some .colon
  | ';' => some .semicolon
  | '&' => some .ampersand
  | '=' => some .equals
  | '*' => some .star
  | _ => none

end Symbol

/-- A token of an option value. -/
inductive Token where
  /-- A name: a property, a keyword, a function, a range variable or an option. A qualified name is
  one token with its dots. -/
  | name (text : Text)
  | literal (value : Literal)
  | symbol (symbol : Symbol)
  deriving DecidableEq

/-- A token at its place in a text. -/
structure Lexeme where
  token : Token
  start : Text
  /-- The text after the token. -/
  rest : Text
  deriving DecidableEq

namespace Lexeme

def text (lexeme : Lexeme) : Text :=
  lexeme.start.take (lexeme.start.length - lexeme.rest.length)

/-- A character that may start a name. -/
def isNameStart (c : Char) : Bool :=
  isAlphabetic c || c = '_' || c = '$' || c = '@'

/-- A character that may continue a name. -/
def isNameContinue (c : Char) : Bool :=
  isAlphanumeric c || c = '_' || c = '.'

/-- A text that goes on with a character of a name. -/
def continuesName (text : Text) : Bool :=
  text.head?.any isNameContinue

/-- The characters up to and with the closing quote, and the text after it, for a text that follows
an opening quote; none if the quote is never closed. -/
def spanQuoted? : Text → Option (Text × Text)
  | [] => none
  | '\x27' :: '\x27' :: rest =>
    (spanQuoted? rest).map fun (content, rest) => ('\x27' :: '\x27' :: content, rest)
  | '\x27' :: rest => some (['\x27'], rest)
  | c :: rest => (spanQuoted? rest).map fun (content, rest) => (c :: content, rest)

def spanDigits (text : Text) : Text × Text :=
  (text.takeWhile Char.isDigit, text.dropWhile Char.isDigit)

/-- The sign of a number. -/
def spanSign : Text → Text × Text
  | '-' :: rest => (['-'], rest)
  | text => ([], text)

/-- The fraction of a number: a point with at least one digit after it. -/
def spanFraction (text : Text) : Text × Text :=
  match text with
  | '.' :: rest =>
    let (digits, rest) := spanDigits rest
    if digits.isEmpty then ([], text) else ('.' :: digits, rest)
  | _ => ([], text)

/-- The sign of an exponent. -/
def spanExponentSign : Text → Text × Text
  | '-' :: rest => (['-'], rest)
  | '+' :: rest => (['+'], rest)
  | text => ([], text)

/-- The exponent of a number: its mark with at least one digit after it, or after a sign. -/
def spanExponent (text : Text) : Text × Text :=
  match text with
  | mark :: rest =>
    if Number.isExponentMark mark then
      let (sign, rest) := spanExponentSign rest
      let (digits, rest) := spanDigits rest
      if digits.isEmpty then ([], text) else (mark :: sign ++ digits, rest)
    else ([], text)
  | [] => ([], [])

/-- The longest number at the beginning of a text, and what follows it. -/
def spanNumber (text : Text) : Text × Text :=
  let (sign, rest) := spanSign text
  let (whole, rest) := spanDigits rest
  let (fraction, rest) := spanFraction rest
  let (exponent, rest) := spanExponent rest
  (sign ++ whole ++ fraction ++ exponent, rest)

def literalToken (text : Text) : Except Fault Token :=
  match Literal.parse text with
  | .ok value => .ok (.literal value)
  | .error e => .error (.literal e)

/-- A text that begins with a GUID which no name continues. -/
def startsWithGuid (start : Text) : Bool :=
  isGuid (start.take Guid.length) && !continuesName (start.drop Guid.length)

/-- The number at the beginning of a text. A number that runs into a name is a fault, which shows
the text up to the next white space. -/
def scanNumber (start : Text) : Except Fault (Token × Text) :=
  let (number, rest) := spanNumber start
  if continuesName rest then
    .error (.unexpected .number (some (start.takeWhile (!isWhiteSpace ·))) start)
  else (literalToken number).map (·, rest)

/-- The quoted literal at the beginning of a text, after the type name of an enumeration or after
nothing. -/
def scanQuoted (typeName : Text) (start : Text) : Except Fault (Token × Text) :=
  match spanQuoted? start.tail with
  | none => .error (.unexpected .closingQuote none start)
  | some (content, rest) =>
    (literalToken (typeName ++ Text.quoteMark :: content)).map (·, rest)

def wordToken (word : Text) : Token :=
  if word = "null".toList then .literal .null
  else if word = "true".toList then .literal (.boolean true)
  else if word = "false".toList then .literal (.boolean false)
  else .name word

/-- The word at the beginning of a text, of which the first character may start a name. A qualified
name right before a quote begins a member of an enumeration. -/
def scanWord (first : Char) (rest : Text) : Except Fault (Token × Text) :=
  let word := first :: rest.takeWhile isNameContinue
  let after := rest.dropWhile isNameContinue
  if word.contains '.' && after.head? = some Text.quoteMark then scanQuoted word after
  else .ok (wordToken word, after)

/-- The token at the beginning of a text, where white space has been skipped. -/
def scan (first : Char) (rest : Text) : Except Fault (Token × Text) :=
  let start := first :: rest
  match Symbol.ofChar? first with
  | some symbol => .ok (.symbol symbol, rest)
  | none =>
    if first = Text.quoteMark then scanQuoted [] start
    else if startsWithGuid start then
      .ok (.literal (.guid ((start.take Guid.length).map Char.toLower)), start.drop Guid.length)
    else if first = '-' then
      if rest.head?.any Char.isDigit then scanNumber start else .ok (.symbol .minus, rest)
    else if first.isDigit then scanNumber start
    else if isNameStart first then scanWord first rest
    else .error (.unexpected .token (some [first]) start)

/-- The next lexeme of a text, none at its end. -/
def next? (text : Text) : Except Fault (Option Lexeme) :=
  match Text.trimStart text with
  | [] => .ok none
  | first :: rest => (scan first rest).map fun (token, after) => some ⟨token, first :: rest, after⟩

end Lexeme

end ODataRequest
