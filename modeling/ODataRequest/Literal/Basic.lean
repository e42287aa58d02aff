import ODataRequest.Text.Identifier
import ODataRequest.Text.Quoted

/-! Scalar literals: the written forms of numbers, the kinds of literals, the reading of a text as a
literal, and the canonical text. A number that is not a 64-bit integer keeps the digits it was written
with, so that neither precision nor notation changes. -/

namespace ODataRequest

/-! ### Numbers -/

namespace Number

/-- The text without one leading sign. -/
def unsigned (text : Text) : Text :=
  match text with
  | '-' :: rest => rest
  | _ => text

/-- Digits after an optional minus sign. -/
def isInteger (text : Text) : Bool :=
  Text.isDigits (unsigned text)

/-- The number that the text of an integer denotes. -/
def integerValue (text : Text) : Int :=
  match text with
  | '-' :: digits => -(Text.digitsValue digits : Int)
  | digits => (Text.digitsValue digits : Int)

/-- The mark of an exponent. -/
def isExponentMark (c : Char) : Bool :=
  c = 'e' || c = 'E'

/-- Digits after an optional sign. -/
def isExponent (text : Text) : Bool :=
  match text with
  | '+' :: digits => Text.isDigits digits
  | '-' :: digits => Text.isDigits digits
  | digits => Text.isDigits digits

/-- A number that is not written as an integer: digits with a fraction, with an exponent or with
both, after an optional minus sign. -/
def isDecimal (text : Text) : Bool :=
  let body := unsigned text
  let mantissa := body.takeWhile (!isExponentMark ·)
  let exponent? := (body.dropWhile (!isExponentMark ·)).tail?
  let mantissaFits :=
    match Text.cutAt? '.' mantissa with
    | some (whole, fraction) => Text.isDigits whole && Text.isDigits fraction
    | none => exponent?.isSome && Text.isDigits mantissa
  mantissaFits && exponent?.all isExponent

/-- The least integer of 64 bits. -/
def minInteger : Int := -9223372036854775808

/-- The greatest integer of 64 bits. -/
def maxInteger : Int := 9223372036854775807

/-- The greatest natural number of 64 bits. -/
def maxNatural : Nat := 18446744073709551615

end Number

/-! ### Identifiers in five groups -/

def isHexDigit (c : Char) : Bool :=
  c.isDigit || ('a' ≤ c && c ≤ 'f') || ('A' ≤ c && c ≤ 'F')

namespace Guid

/-- The sizes of the groups of digits. -/
def groupSizes : List Nat := [8, 4, 4, 4, 12]

def length : Nat := 36

end Guid

/-- A text of five groups of 8, 4, 4, 4 and 12 hexadecimal digits with hyphens between them. -/
def isGuid (text : Text) : Bool :=
  let groups := Text.fields '-' text
  groups.map List.length == Guid.groupSizes && groups.all (·.all isHexDigit)

/-! ### Literals -/

/-- A scalar literal of a key or of an expression. -/
inductive Literal where
  | null
  | boolean (value : Bool)
  | integer (value : Int)
  /-- Any other number, as written. -/
  | decimal (text : Text)
  | string (value : Text)
  | guid (text : Text)
  | enumeration (typeName value : Text)
  deriving DecidableEq

/-- What a rejected text should have been. -/
inductive LiteralForm where
  | scalar
  /-- The value of a count option. -/
  | truth
  /-- The value of a top or skip option. -/
  | nonNegative
  | levels
  deriving DecidableEq

def LiteralForm.describe : LiteralForm → Text
  | .scalar => "an integer, decimal, quoted string, GUID, boolean or null literal".toList
  | .truth => "'true' or 'false'".toList
  | .nonNegative => "a non-negative integer".toList
  | .levels => "a non-negative integer or 'max'".toList

/-- A text that is not of the expected form. -/
structure InvalidLiteral where
  text : Text
  expected : LiteralForm
  deriving DecidableEq

def InvalidLiteral.message (e : InvalidLiteral) : Text :=
  "'".toList ++ e.text ++ "' is not ".toList ++ e.expected.describe

namespace Literal

/-- The literal of an integer's text: a number outside 64 bits stays as written. -/
def ofIntegerText (text : Text) : Literal :=
  let value := Number.integerValue text
  if Number.minInteger ≤ value ∧ value ≤ Number.maxInteger then .integer value else .decimal text

/-- The content of a text that ends with a quote and has its inner quotes doubled. -/
def closeQuote? (text : Text) : Option Text :=
  (Text.before? Text.quoteMark text).bind Text.collapseQuotes?

/-- The literal that a text is, if it is one. -/
def ofText? (text : Text) : Option Literal :=
  if text = "null".toList then some .null
  else if text = "true".toList then some (.boolean true)
  else if text = "false".toList then some (.boolean false)
  else if text.head? = some Text.quoteMark then (closeQuote? text.tail).map .string
  else if isGuid text then some (.guid (text.map Char.toLower))
  else
    match Text.cutAt? Text.quoteMark text with
    | some (typeName, quoted) =>
      if isQualifiedName typeName then (closeQuote? quoted).map (.enumeration typeName) else none
    | none =>
      if Number.isInteger text then some (ofIntegerText text)
      else if Number.isDecimal text then some (.decimal text)
      else none

/-- The literal that a text is, or its rejection. -/
def parse (text : Text) : Except InvalidLiteral Literal :=
  match ofText? text with
  | some literal => .ok literal
  | none => .error ⟨text, .scalar⟩

def render : Literal → Text
  | .null => "null".toList
  | .boolean true => "true".toList
  | .boolean false => "false".toList
  | .integer value => Text.ofInt value
  | .decimal text => text
  | .string value => Text.quoted value
  | .guid text => text
  | .enumeration typeName value => typeName ++ Text.quoted value

/-- A literal that an operand of a minus sign may be. -/
def isNumeric : Literal → Bool
  | .integer _ => true
  | .decimal _ => true
  | _ => false

end Literal

/-- The value of a count option. -/
def parseTruth (raw : Text) : Except InvalidLiteral Bool :=
  let text := raw.trim
  if text = "true".toList then .ok true
  else if text = "false".toList then .ok false
  else .error ⟨text, .truth⟩

/-- The value of a top or skip option: a natural number of 64 bits. -/
def parseNonNegative (raw : Text) : Except InvalidLiteral Nat :=
  let text := raw.trim
  if Text.isDigits text ∧ Text.digitsValue text ≤ Number.maxNatural then .ok (Text.digitsValue text)
  else .error ⟨text, .nonNegative⟩

end ODataRequest
