import ODataRequest.Literal.Basic
import ODataRequest.Path.Fault

/-! Keys of entities: one unnamed literal, or a literal for each named key property. -/

namespace ODataRequest

/-- How keys are written in a path. -/
inductive KeyStyle where
  | parentheses
  /-- As a segment of their own, where the kind of the key allows it. -/
  | slash
  deriving DecidableEq

/-- The key of an entity. -/
inductive KeyPredicate where
  | single (value : Literal)
  | named (pairs : List (Text × Literal))
  deriving DecidableEq

namespace KeyPredicate

/-- What stands before and after the first occurrence of a character outside quotes. -/
def cutOutsideQuotes? (separator : Char) : (inQuotes : Bool) → Text → Option (Text × Text)
  | _, [] => none
  | inQuotes, c :: rest =>
    if c = separator && !inQuotes then some ([], rest)
    else
      (cutOutsideQuotes? separator (inQuotes ^^ c == Text.quoteMark) rest).map
        fun (before, after) => (c :: before, after)

/-- The fields between the occurrences of a character outside quotes. -/
def fieldsOutsideQuotes (separator : Char) : (inQuotes : Bool) → Text → List Text
  | _, [] => [[]]
  | inQuotes, c :: rest =>
    if c = separator && !inQuotes then [] :: fieldsOutsideQuotes separator inQuotes rest
    else
      (fieldsOutsideQuotes separator (inQuotes ^^ c == Text.quoteMark) rest).modifyHead (c :: ·)

/-- The name and the value around the first equals sign outside quotes. -/
def nameAndValue? (part : Text) : Option (Text × Text) :=
  cutOutsideQuotes? '=' false part

/-- The literal of a key value, with white space around it. -/
def keyValue (text : Text) : Except KeyFault Literal :=
  match Literal.ofText? text.trim with
  | some value => .ok value
  | none => .error .notLiteral

def keyPair (part : Text) : Except KeyFault (Text × Literal) :=
  match nameAndValue? part with
  | none => .error .unnamed
  | some (name, value) =>
    if !isIdentifier name.trim then .error .badName
    else (keyValue value).map (name.trim, ·)

def keyPairs : List Text → Except KeyFault (List (Text × Literal))
  | [] => .ok []
  | part :: parts => do
    let pair ← keyPair part
    let pairs ← keyPairs parts
    .ok (pair :: pairs)

/-- The key between two parentheses. It is named if any of its parts is. -/
def read (inner : Text) : Except KeyFault KeyPredicate :=
  if inner.trim.isEmpty then .error .empty
  else
    let parts := fieldsOutsideQuotes ',' false inner
    if parts.any (nameAndValue? · |>.isSome) then (keyPairs parts).map .named
    else
      match parts with
      | [part] => (keyValue part).map .single
      | _ => .error .unnamed

def parse (segment inner : Text) : Except PathError KeyPredicate :=
  (read inner).mapError (.invalidKey segment)

/-- One unnamed value. -/
def isSingle : KeyPredicate → Bool
  | .single _ => true
  | .named _ => false

def render : KeyPredicate → Text
  | .single value => value.render
  | .named pairs =>
    [','].intercalate (pairs.map fun (name, value) => name ++ '=' :: value.render)

end KeyPredicate

end ODataRequest
