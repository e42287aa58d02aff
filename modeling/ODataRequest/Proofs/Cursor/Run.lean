import ODataRequest.Proofs.Cursor.Bytes
import ODataRequest.Proofs.Cursor.Journal
import ODataRequest.Query.Grammar

/-! Runs over a source with a reading position that counts bytes. A run takes slices, moves the position,
queues tokens and keeps a journal, also when it fails. Its lexer is the one of lexemes, written over slices
and bytes of the source in place of the unread text. -/

namespace ODataRequest

open Text Unicode

namespace Cursor

/-- What a run is about. -/
structure Input where
  option : Text
  source : Text
  maxDepth : Nat
  /-- How often a loop may turn. -/
  turns : Nat

/-- A token with the offsets where it begins and ends. -/
structure Spanned where
  token : Token
  start : Nat
  stop : Nat
  deriving DecidableEq

/-- A lexeme as a token between offsets. -/
def Spanned.ofLexeme (source : Text) (lexeme : Lexeme) : Spanned :=
  ⟨lexeme.token, offsetOf source lexeme.start, offsetOf source lexeme.rest⟩

/-- The state of a run. -/
structure State where
  /-- The offset of the next character that is not read. -/
  position : Nat
  /-- The tokens that were read ahead, the first one to be taken first. -/
  queue : List Spanned
  journal : Journal
  deriving DecidableEq

/-- Why a run ends without a value. -/
inductive Failure where
  | rejected (e : QueryError)
  | noSlice (start stop : Nat)
  | endless
  deriving DecidableEq

/-- A part of a run: the state it leaves, with a value or a failure. -/
structure Run (α : Type) where
  exec : State → Except Failure α × State

namespace Run

variable {α β : Type}

/-- A part of a run and the next one, unless the first fails. -/
def andThen (run : Run α) (next : α → Run β) : Run β where
  exec s :=
    match run.exec s with
    | (.ok value, s) => (next value).exec s
    | (.error failure, s) => (.error failure, s)

instance : Monad Run where
  pure value := ⟨fun s => (.ok value, s)⟩
  bind := andThen

theorem exec_bind (run : Run α) (next : α → Run β) (s : State) : (run >>= next).exec s =
    match run.exec s with
    | (.ok value, s) => (next value).exec s
    | (.error failure, s) => (.error failure, s) :=
  rfl

def get : Run State where
  exec s := (.ok s, s)

def fail (failure : Failure) : Run α where
  exec s := (.error failure, s)

def note (event : Event) : Run Unit where
  exec s := (.ok (), { s with journal := event :: s.journal })

def moveTo (position : Nat) : Run Unit where
  exec s := (.ok (), { s with position := position, journal := .moved s.position position :: s.journal })

variable (input : Input)

def slice (start stop : Nat) : Run Text where
  exec s :=
    let s := { s with journal := .sliced start stop :: s.journal }
    match input.source.slice? start stop with
    | some word => (.ok word, s)
    | none => (.error (.noSlice start stop), s)

def sliceFrom (start : Nat) : Run Text :=
  slice input start (utf8Length input.source)

/-- The rejection of what stands at an offset. -/
def reject (position : Nat) (expected : Expectation) (found : Option Text) : Run α :=
  fail (.rejected (.malformed ⟨input.option, position, expected, found⟩))

/-! ### Tokens -/

def skipBlanks : Run Unit := do
  let s ← get
  let rest ← sliceFrom input s.position
  moveTo (s.position + (utf8Length rest - utf8Length (trimStart rest)))

/-- A mark of one byte. -/
def mark (symbol : Symbol) : Run Token := do
  let s ← get
  moveTo (s.position + 1)
  pure (.symbol symbol)

def literal (start stop : Nat) : Run Token := do
  let word ← slice input start stop
  match Literal.parse word with
  | .ok value => pure (.literal value)
  | .error e => fail (.rejected (.literal e))

/-- A GUID that no name continues comes next. -/
def startsWithGuid : Run Bool := do
  let s ← get
  let stop := s.position + Guid.length
  match input.source.slice? s.position stop with
  | none => pure false
  | some word =>
    note (.sliced s.position stop)
    if isGuid word then
      let rest ← sliceFrom input stop
      pure !Lexeme.continuesName rest
    else pure false

/-- A GUID comes next, for which no window is opened unless its first character may begin one. -/
def beginsGuid (first : Char) : Run Bool :=
  if isHexDigit first then startsWithGuid input else pure false

def guid : Run Token := do
  let s ← get
  let word ← slice input s.position (s.position + Guid.length)
  moveTo (s.position + Guid.length)
  pure (.literal (.guid (word.map Char.toLower)))

def number : Run Token := do
  let s ← get
  let stop := Utf8.numberEnd (Utf8.encode input.source) s.position
  let rest ← sliceFrom input stop
  if Lexeme.continuesName rest then
    let start ← sliceFrom input s.position
    reject input s.position .number (some (start.takeWhile (!isWhiteSpace ·)))
  else
    moveTo stop
    literal input s.position stop

/-- The offset after the quoted text that begins at an offset. -/
def quotedEnd (start : Nat) : Run Nat :=
  match Utf8.quoteEnd? ((Utf8.encode input.source).drop (start + 1)) (start + 1) with
  | some stop => pure stop
  | none => reject input start .closingQuote none

/-- A quoted literal, of which the quoted text begins at an offset. -/
def quoted (start quote : Nat) : Run Token := do
  let stop ← quotedEnd input quote
  moveTo stop
  literal input start stop

/-- A name or keyword that ends at an offset. -/
def endWord (word : Text) (stop : Nat) : Run Token := do
  moveTo stop
  pure (Lexeme.wordToken word)

/-- A word, with the quoted text behind it if it is the name of a type. -/
def word : Run Token := do
  let s ← get
  let rest ← sliceFrom input s.position
  let stop := s.position + utf8Length (rest.take 1 ++ (rest.drop 1).takeWhile Lexeme.isNameContinue)
  let word ← slice input s.position stop
  if word.contains '.' then
    let rest ← sliceFrom input stop
    if rest.head? = some quoteMark then quoted input s.position stop else endWord word stop
  else endWord word stop

def token (first : Char) : Run Token := do
  match Symbol.ofChar? first with
  | some symbol => mark symbol
  | none =>
    let s ← get
    if first = quoteMark then quoted input s.position s.position
    else
      let isGuid ← beginsGuid input first
      if isGuid then guid input
      else if first = '-' then
        let rest ← sliceFrom input (s.position + 1)
        if rest.head?.any Char.isDigit then number input else mark .minus
      else if first.isDigit then number input
      else if Lexeme.isNameStart first then word input
      else reject input s.position .token (some [first])

def next : Run (Option Spanned) := do
  skipBlanks input
  let start ← get
  let rest ← sliceFrom input start.position
  match rest.head? with
  | none => pure none
  | some first =>
    let token ← token input first
    let stop ← get
    note (.lexed start.position stop.position)
    pure (some ⟨token, start.position, stop.position⟩)

end Run

end Cursor

end ODataRequest
