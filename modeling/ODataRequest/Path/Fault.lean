import ODataRequest.Text.Basic

/-! What can be wrong with a resource path. -/

namespace ODataRequest

/-- What can be wrong with a key predicate. -/
inductive KeyFault where
  | unbalanced | trailing | unattached | empty | unnamed | badName | notLiteral
  deriving DecidableEq

def KeyFault.describe : KeyFault → Text
  | .unbalanced => "unbalanced ')'".toList
  | .trailing => "unexpected characters after ')'".toList
  | .unattached => "key predicate has no entity set or navigation before it".toList
  | .empty => "key predicate is empty".toList
  | .unnamed => "composite keys must name every key property".toList
  | .badName => "key property name is not an identifier".toList
  | .notLiteral => "key value is not a literal".toList

/-- Why a segment may not stand where it does. -/
inductive PlacementFault where
  | notAlone | notLast | noResource | notKeyed
  deriving DecidableEq

def PlacementFault.describe : PlacementFault → Text
  | .notAlone => "must be the only segment".toList
  | .notLast => "must be the last segment".toList
  | .noResource => "must follow a resource it can apply to".toList
  | .notKeyed => "keys apply only to entity sets and navigation properties".toList

/-- Why a text is not a resource path. -/
inductive PathError where
  /-- Nothing stands between two slashes, before the first or after the last. -/
  | emptySegment (index : Nat)
  | unterminatedKey (segment : Text)
  | invalidKey (segment : Text) (reason : KeyFault)
  | misplaced (segment : Text) (index : Nat) (reason : PlacementFault)
  /-- A name holds a character that no identifier has there; the position counts characters. -/
  | invalidIdentifier (segment : Text) (char : Char) (position : Nat)
  | invalidEncoding (segment : Text)
  deriving DecidableEq

def PathError.message : PathError → Text
  | .emptySegment index => "segment ".toList ++ Text.ofNat index ++ " is empty".toList
  | .unterminatedKey segment =>
    "key predicate in '".toList ++ segment ++ "' is missing its closing ')'".toList
  | .invalidKey segment reason =>
    "invalid key predicate in '".toList ++ segment ++ "': ".toList ++ reason.describe
  | .misplaced segment index reason =>
    "segment '".toList ++ segment ++ "' at index ".toList ++ Text.ofNat index ++
      " is misplaced: ".toList ++ reason.describe
  | .invalidIdentifier segment char position =>
    "invalid character '".toList ++ [char] ++ "' at position ".toList ++ Text.ofNat position ++
      " in segment '".toList ++ segment ++ "'".toList
  | .invalidEncoding segment => "segment '".toList ++ segment ++ "' does not decode to UTF-8".toList

end ODataRequest
