import ODataRequest.WebUrl.Basic
import ODataRequest.WebUrl.File

/-! Reading of absolute URLs by the rules of the web, for hosts in ASCII: white space around the URL and
line breaks in it are dropped, known schemes have an authority after any number of slashes or
backslashes, hosts and ports take their normal form, dot segments are resolved, and every part is escaped
as its place demands. It is one parser that the library runs with; internationalized names of hosts
need another one. -/

namespace ODataRequest.WebUrl

def specialSchemes : List (Text × Option Nat) :=
  [("http".toList, some 80), ("https".toList, some 443), ("ws".toList, some 80),
    ("wss".toList, some 443), ("ftp".toList, some 21), ("file".toList, none)]

/-- A scheme that the rules know. -/
def isSpecial (scheme : Text) : Bool :=
  specialSchemes.any (·.1 = scheme)

/-- The port that need not be written. -/
def defaultPort? (scheme : Text) : Option Nat :=
  (specialSchemes.find? (·.1 = scheme)).bind Prod.snd

/-- The text without the controls and spaces around it. -/
def trim (text : Text) : Text :=
  let isBlank (c : Char) : Bool := c.toNat ≤ 0x20
  ((text.dropWhile isBlank).reverse.dropWhile isBlank).reverse

/-- The scheme in lower case, and the text after its colon. -/
def cutScheme? (text : Text) : Option (Text × Text) :=
  match (Text.cutAt? ':' text).map fun (scheme, rest) => (dropIgnored scheme, rest) with
  | some (first :: others, rest) =>
    if first.isAlpha && others.all (fun c => c.isAlphanum || c = '+' || c = '-' || c = '.') then
      some ((first :: others).map Char.toLower, rest)
    else none
  | _ => none

/-- A character that ends a path. -/
def endsPath (c : Char) : Bool :=
  c = '?' || c = '#'

/-- The bytes escaped in a user name or password. -/
def reservedInCredentials (byte : UInt8) : Bool :=
  reservedInPath byte || Percent.isOneOf "/:;=@[\\]^|".toList byte

def reservedInQuery (special : Bool) (byte : UInt8) : Bool :=
  Percent.isUnprintable byte || Percent.isOneOf " \"#<>".toList byte ||
    (special && Percent.isOneOf ['\x27'] byte)

def reservedInFragment (byte : UInt8) : Bool :=
  Percent.isUnprintable byte || Percent.isOneOf " \"<>`".toList byte

/-- The escaped user name and password; an empty name without a password counts for nothing. -/
def credentials? (text : Text) : Option Text :=
  let (name, password) := (Text.cutAt? ':' text).getD (text, [])
  let encode := Percent.encode reservedInCredentials
  if password.isEmpty then (if name.isEmpty then none else some (encode name))
  else some (encode name ++ ':' :: encode password)

/-- The text up to the last occurrence of a character and the text after it. -/
def cutAtLast? (separator : Char) (text : Text) : Option (Text × Text) :=
  (Text.cutAt? separator text.reverse).map fun (after, before) => (before.reverse, after.reverse)

/-- The host part of an authority and the rest: a colon within brackets does not end it. -/
def spanHost : (inBrackets : Bool) → Text → Text × Text
  | _, [] => ([], [])
  | inBrackets, c :: rest =>
    if c = ':' && !inBrackets then ([], c :: rest)
    else
      let (host, after) := spanHost (c = '[' || (inBrackets && c ≠ ']')) rest
      (c :: host, after)

/-- The port after a colon, none if it is the scheme's own or not written. -/
def port? (scheme digits : Text) : Option (Option Nat) :=
  let port := Text.digitsValue digits
  if !digits.all Char.isDigit || 65535 < port then none
  else if digits.isEmpty || defaultPort? scheme = some port then some none
  else some (some port)

/-- The port of an authority, after its host. A backslash ends the digits even where it is no slash;
what follows it belongs to the path. -/
def cutPort? (scheme text : Text) : Option (Option Nat × Text) :=
  match text with
  | ':' :: rest => do
    let port ← port? scheme (rest.takeWhile (· ≠ '\\'))
    some (port, rest.dropWhile (· ≠ '\\'))
  | _ => some (none, text)

/-- The authority of a text, and what of the text belongs to the path. -/
def cutAuthority? (scheme : Text) (text : Text) : Option (Authority × Text) := do
  let special := isSpecial scheme
  let (userInfo, place) := (cutAtLast? '@' text).getD ([], text)
  let credentials := credentials? userInfo
  let (hostText, rest) := spanHost false place
  let host ←
    if special then Host.parse? hostText else Host.parseUninterpreted? hostText
  if host.isEmpty && (credentials.isSome || rest.head? = some ':') then none
  else
    let (port, rest) ← cutPort? scheme rest
    some (⟨credentials, host, port⟩, rest)

/-- The path after an authority. -/
def pathAfterAuthority (special : Bool) (text : Text) : UrlPath :=
  match text with
  | [] => .rooted (if special then [[]] else [])
  | c :: rest => .rooted (pathSegments special (if isSlash special c then rest else text))

/-- The URL of a scheme with an authority, from after the slashes on. An empty user name is refused
where nothing but the end of the authority follows its mark. -/
def withAuthority? (scheme body : Text) (query fragment : Option Text) : Option WebUrl := do
  let special := isSpecial scheme
  let authorityText := body.takeWhile (!isSlash special ·)
  let pathText := body.dropWhile (!isSlash special ·)
  if authorityText = ['@'] && (!pathText.isEmpty || query.isSome || fragment.isSome) then none
  else
    let (authority, rest) ← cutAuthority? scheme authorityText
    some ⟨scheme, authority, pathAfterAuthority special (rest ++ pathText), query, fragment⟩

/-- The URL of a file, from after the colon on. -/
def file? (scheme body : Text) (query fragment : Option Text) : Option WebUrl :=
  (FileLocation.parse? body).map fun file =>
    ⟨scheme, some ⟨none, file.host, none⟩, .rooted file.segments, query, fragment⟩

/-- The URL of a scheme that the rules do not know. -/
def other? (scheme body : Text) (query fragment : Option Text) : Option WebUrl :=
  match body with
  | '/' :: '/' :: rest => withAuthority? scheme rest query fragment
  | '/' :: rest => some ⟨scheme, none, .rooted (pathSegments false rest), query, fragment⟩
  | _ => some ⟨scheme, none, .rootless (Percent.encode Percent.isUnprintable body), query, fragment⟩

/-- The query and the fragment of a text that begins with the mark of one of them. -/
def queryAndFragment (special : Bool) (text : Text) : Option Text × Option Text :=
  let beforeFragment := text.takeWhile (· ≠ '#')
  let query :=
    match beforeFragment with
    | '?' :: query => some (Percent.encode (reservedInQuery special) query)
    | _ => none
  let fragment :=
    match text.dropWhile (· ≠ '#') with
    | '#' :: fragment => some (Percent.encode reservedInFragment fragment)
    | _ => none
  (query, fragment)

/-- The absolute URL that a text is. Ignored characters still count in the path of a file. -/
def parse? (text : Text) : Option WebUrl := do
  let (scheme, rest) ← cutScheme? (trim text)
  let special := isSpecial scheme
  let rawBody := rest.takeWhile (!endsPath ·)
  let body := dropIgnored rawBody
  let (query, fragment) := queryAndFragment special (dropIgnored (rest.dropWhile (!endsPath ·)))
  if scheme = "file".toList then file? scheme rawBody query fragment
  else if special then withAuthority? scheme (body.dropWhile (isSlash true)) query fragment
  else other? scheme body query fragment

/-- What is told of a URL. -/
def toUrl (url : WebUrl) : Url :=
  ⟨url.render, url.isHierarchical, url.query, url.fragment⟩

instance parser : Url.Parser :=
  ⟨fun text => (parse? text).map toUrl⟩

end ODataRequest.WebUrl
