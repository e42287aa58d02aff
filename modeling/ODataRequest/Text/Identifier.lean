import ODataRequest.Text.Basic

/-! Identifiers: a letter or an underscore, then letters, digits and underscores. The checker says
which character breaks the rule and where; the identifiers are the non-empty texts without one. -/

namespace ODataRequest

open Unicode

namespace Identifier

def isStart (c : Char) : Bool :=
  isAlphabetic c || c = '_'

/-- A character that may stand after the first one. -/
def isContinue (c : Char) : Bool :=
  isAlphanumeric c || c = '_'

/-- The first misplaced character with its index, for a text that begins at the given index. -/
def faultFrom (index : Nat) : Text → Option (Nat × Char)
  | [] => none
  | c :: rest =>
    if (if index = 0 then isStart c else isContinue c) then faultFrom (index + 1) rest
    else some (index, c)

/-- The first character, with its index, that an identifier could not have there. -/
def fault? (text : Text) : Option (Nat × Char) :=
  faultFrom 0 text

end Identifier

open Identifier in
/-- A simple identifier. -/
def isIdentifier : Text → Bool
  | [] => false
  | c :: rest => isStart c && rest.all isContinue

/-- Identifiers joined by dots, with at least one dot. -/
def isQualifiedName (text : Text) : Bool :=
  text.contains '.' && (Text.fields '.' text).all isIdentifier

namespace Identifier

theorem faultFrom_succ_eq_none_iff {index : Nat} {text : Text} :
    faultFrom (index + 1) text = none ↔ text.all isContinue = true := by
  induction text generalizing index with
  | nil => simp [faultFrom]
  | cons c rest ih => by_cases hc : isContinue c = true <;> simp [faultFrom, hc, ih]

/-- The identifiers are the non-empty texts without a fault. -/
theorem isIdentifier_eq_true_iff {text : Text} :
    isIdentifier text = true ↔ text ≠ [] ∧ fault? text = none := by
  cases text with
  | nil => simp [isIdentifier]
  | cons c rest =>
    by_cases hc : isStart c = true <;>
      simp [isIdentifier, fault?, faultFrom, hc, faultFrom_succ_eq_none_iff]

end Identifier

end ODataRequest
