import ODataRequest.Text.Utf8

/-! Percent-encoding. A text is escaped byte by byte of its UTF-8 form, by a profile that says which
bytes must not stand bare: the path profile for a segment of a resource path and the query-value
profile for either side of a query pair. Both profiles are also given as a predicate on characters.
Unescaping undoes every complete escape and keeps a `%` that starts none. -/

namespace ODataRequest.Percent

/-- The hexadecimal digit of a number below sixteen, in upper case. -/
def hexDigit (n : Nat) : Char :=
  if n < 10 then Char.ofNat (0x30 + n) else Char.ofNat (0x37 + n)

/-- The value of a hexadecimal digit in either case. -/
def hexValue? (c : Char) : Option Nat :=
  if c.isDigit then some (c.toNat - 0x30)
  else if 'A' ≤ c ∧ c ≤ 'F' then some (c.toNat - 0x37)
  else if 'a' ≤ c ∧ c ≤ 'f' then some (c.toNat - 0x57)
  else none

/-- One byte, bare or as an escape. -/
def encodeByte (reserved : UInt8 → Bool) (byte : UInt8) : Text :=
  if reserved byte then ['%', hexDigit (byte.toNat / 16), hexDigit (byte.toNat % 16)]
  else [Char.ofNat byte.toNat]

/-- The text with every reserved byte of its UTF-8 form written as an escape. -/
def encode (reserved : UInt8 → Bool) (text : Text) : Text :=
  (Utf8.encode text).flatMap (encodeByte reserved)

/-- The bytes outside printable ASCII. -/
def isUnprintable (byte : UInt8) : Bool :=
  byte < 0x20 || 0x7F ≤ byte

/-- The bytes of a few ASCII characters. -/
def isOneOf (characters : Text) (byte : UInt8) : Bool :=
  characters.contains (Char.ofNat byte.toNat)

/-- The contexts that a text is escaped for. -/
inductive Profile where
  | path
  | queryValue
  deriving DecidableEq

/-- The printable characters that a path segment cannot hold bare: all but the path characters of a
URI, and the `%` itself. -/
def pathReserved : Text :=
  " \"#%/<>?[\\]^`\x7b|\x7d".toList

/-- The punctuation that a query value holds bare. -/
def unreservedPunctuation : Text :=
  "-._~".toList

/-- The bytes that a profile escapes. -/
def Profile.reserves : Profile → UInt8 → Bool
  | .path, byte => isUnprintable byte || isOneOf pathReserved byte
  | .queryValue, byte =>
    isUnprintable byte ||
      !((Char.ofNat byte.toNat).isAlphanum || isOneOf unreservedPunctuation byte)

/-- The text escaped for a context. -/
def escape (profile : Profile) (text : Text) : Text :=
  encode profile.reserves text

/-- A character that is escaped inside a path segment. -/
def escapesInPath (c : Char) : Bool :=
  match c with
  | ' ' | '"' | '#' | '%' | '/' | '<' | '>' | '?' | '[' | '\\' | ']' | '^' | '\x60' | '\x7b' | '|'
  | '\x7d' => true
  | _ => c.toNat < 0x20 || 0x7F ≤ c.toNat

def escapesInQueryValue (c : Char) : Bool :=
  match c with
  | '-' | '.' | '_' | '~' => false
  | _ => !c.isAlphanum

/-- The character predicate of a profile. -/
def Profile.escapes : Profile → Char → Bool
  | .path => escapesInPath
  | .queryValue => escapesInQueryValue

/-- The bytes that a text stands for: one byte for a complete escape, the UTF-8 form of any other
character. -/
def unescapedBytes : Text → List UInt8
  | [] => []
  | '%' :: high :: low :: rest =>
    match hexValue? high, hexValue? low with
    | some h, some l => UInt8.ofNat (16 * h + l) :: unescapedBytes rest
    | _, _ => Utf8.encodeChar '%' ++ unescapedBytes (high :: low :: rest)
  | c :: rest => Utf8.encodeChar c ++ unescapedBytes rest

/-- The text that an escaped text stands for. -/
def unescape (text : Text) : Except Utf8.DecodeError Text :=
  Utf8.decode (unescapedBytes text)

end ODataRequest.Percent
