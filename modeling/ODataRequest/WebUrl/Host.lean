import ODataRequest.Text.Percent

/-! Hosts of URLs in their normal form: names in lower case, IPv4 addresses in dotted decimal, IPv6
addresses in brackets with the longest run of zeros left out, and the uninterpreted hosts of schemes
that the URL rules know nothing about. Names are limited to ASCII. -/

namespace ODataRequest.WebUrl.Host

/-- Lower-case hexadecimal digits of a number. -/
def hexText (n : Nat) : Text :=
  Nat.toDigits 16 n

/-- The number that hexadecimal digits denote. -/
def hexNumber (digits : Text) : Nat :=
  digits.foldl (fun n c => 16 * n + (Percent.hexValue? c).getD 0) 0

def isOctalDigit (c : Char) : Bool :=
  '0' ≤ c && c ≤ '7'

/-- The number of one part of an IPv4 address: hexadecimal after `0x`, octal after `0`, or
decimal. -/
def ipv4Number? (part : Text) : Option Nat :=
  match part with
  | [] => none
  | '0' :: 'x' :: digits => hexadecimal digits
  | '0' :: 'X' :: digits => hexadecimal digits
  | '0' :: c :: digits =>
    if (c :: digits).all isOctalDigit then some (Nat.ofDigitChars 8 (c :: digits) 0) else none
  | digits => if digits.all Char.isDigit then some (Text.digitsValue digits) else none
where
  /-- The number of hexadecimal digits, zero for none. -/
  hexadecimal (digits : Text) : Option Nat :=
    if digits.all (Percent.hexValue? · |>.isSome) then some (hexNumber digits) else none

/-- The parts between the dots, without an empty last one. -/
def dottedParts (host : Text) : List Text :=
  let parts := Text.fields '.' host
  if parts.getLast? = some [] then parts.dropLast else parts

def endsInNumber (host : Text) : Bool :=
  (dottedParts host).getLast?.any fun part =>
    Text.isDigits part || (ipv4Number? part).isSome

/-- The number that bytes denote, the highest one first. -/
def ofBytes (bytes : List Nat) : Nat :=
  bytes.foldl (fun value byte => 256 * value + byte) 0

/-- The value of an address whose last number fills the bytes that the others leave. -/
def ipv4Value? (numbers : List Nat) : Option Nat :=
  match numbers.getLast? with
  | none => none
  | some last =>
    let leading := numbers.dropLast
    let left := List.replicate (4 - leading.length) 0
    if 4 < numbers.length || leading.any (255 < ·) || ofBytes (1 :: left) ≤ last then none
    else some (ofBytes (leading ++ left) + last)

/-- The dotted decimal form of an address. -/
def ipv4Text (value : Nat) : Text :=
  ['.'].intercalate
    ([value / 0x1000000, value / 0x10000 % 256, value / 0x100 % 256, value % 256].map Text.ofNat)

def ipv4? (host : Text) : Option Text :=
  ((dottedParts host).mapM ipv4Number?).bind fun numbers => (ipv4Value? numbers).map ipv4Text

/-- One decimal number of an IPv4 address within an IPv6 address. -/
def embeddedNumber? (part : Text) : Option Nat :=
  if Text.isDigits part && Text.ofNat (Text.digitsValue part) = part && Text.digitsValue part ≤ 255
  then some (Text.digitsValue part)
  else none

/-- The two pieces of an IPv4 address within an IPv6 address. -/
def embeddedPieces? (text : Text) : Option (List Nat) :=
  match (Text.fields '.' text).mapM embeddedNumber? with
  | some [a, b, c, d] => some [256 * a + b, 256 * c + d]
  | _ => none

/-- A piece of an IPv6 address: one to four hexadecimal digits. -/
def piece? (text : Text) : Option Nat :=
  if 0 < text.length && text.length ≤ 4 && text.all (Percent.hexValue? · |>.isSome) then
    some (hexNumber text)
  else none

/-- The pieces between colons; the last ones may be an IPv4 address. -/
def pieces? : List Text → Option (List Nat)
  | [] => some []
  | [last] => if last.contains '.' then embeddedPieces? last else (piece? last).map ([·])
  | text :: rest => do
    let piece ← piece? text
    let pieces ← pieces? rest
    some (piece :: pieces)

/-- The pieces of one side of a double colon. -/
def sidePieces? (text : Text) : Option (List Nat) :=
  if text.isEmpty then some [] else pieces? (Text.fields ':' text)

/-- The texts around the first double colon. -/
def cutDoubleColon? : Text → Option (Text × Text)
  | ':' :: ':' :: rest => some ([], rest)
  | c :: rest => (cutDoubleColon? rest).map fun (before, after) => (c :: before, after)
  | [] => none

/-- The eight pieces of an IPv6 address. -/
def ipv6Pieces? (text : Text) : Option (List Nat) :=
  match cutDoubleColon? text with
  | none => (sidePieces? text).filter (·.length = 8)
  | some (before, after) => do
    if before.contains '.' then none
    else
      let left ← sidePieces? before
      let right ← sidePieces? after
      if left.length + right.length < 8 then
        some (left ++ List.replicate (8 - left.length - right.length) 0 ++ right)
      else none

/-- The number of zeros that a list begins with. -/
def leadingZeros (pieces : List Nat) : Nat :=
  (pieces.takeWhile (· == 0)).length

/-- The length of the longest run of zeros. -/
def longestZeros : List Nat → Nat
  | [] => 0
  | piece :: rest => max (leadingZeros (piece :: rest)) (longestZeros rest)

/-- The pieces with colons between them. -/
def joinPieces (pieces : List Nat) : Text :=
  [':'].intercalate (pieces.map hexText)

/-- The pieces with the first run of `run` zeros left out. -/
def compressPieces (run : Nat) (before : List Nat) : List Nat → Text
  | [] => joinPieces before
  | piece :: rest =>
    if leadingZeros (piece :: rest) = run then
      joinPieces before ++ ':' :: ':' :: joinPieces ((piece :: rest).drop run)
    else compressPieces run (before ++ [piece]) rest

/-- The text of an IPv6 address; a run of zeros is left out if it has at least two. -/
def ipv6Text (pieces : List Nat) : Text :=
  let run := longestZeros pieces
  if run < 2 then joinPieces pieces else compressPieces run [] pieces

/-- The IPv6 address in brackets. -/
def bracketed? (host : Text) : Option Text := do
  let text ← Text.before? ']' host.tail
  let pieces ← ipv6Pieces? text
  some ('[' :: ipv6Text pieces ++ [']'])

/-- The characters that no host may hold. -/
def forbidden : Text :=
  "\x00\t\n\x0d #/:<>?@[\\]^|".toList

/-- A character that a name of a host may hold. -/
def isNameCharacter (c : Char) : Bool :=
  0x20 < c.toNat && c.toNat < 0x7F && c != '%' && !forbidden.contains c

/-- The host of a scheme that the URL rules know: a name, or an address. -/
def parse? (host : Text) : Option Text :=
  if host.head? = some '[' then bracketed? host
  else
    match Percent.unescape host with
    | .error _ => none
    | .ok decoded =>
      let name := decoded.map Char.toLower
      if name.isEmpty || !name.all isNameCharacter then none
      else if endsInNumber name then ipv4? name
      else some name

def parseUninterpreted? (host : Text) : Option Text :=
  if host.head? = some '[' then bracketed? host
  else if host.any forbidden.contains then none
  else some (Percent.encode Percent.isUnprintable host)

end ODataRequest.WebUrl.Host
