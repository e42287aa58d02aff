import ODataRequest.Text.Basic

/-! The system query options: the names that the protocol reserves. -/

namespace ODataRequest

/-- A query option reserved by the protocol. -/
inductive SystemOption where
  | filter | expand | select | orderBy | top | skip | count | search | apply | format | levels
  deriving DecidableEq

namespace SystemOption

/-- Every system option, in the order of the protocol's list. -/
def all : List SystemOption :=
  [.filter, .expand, .select, .orderBy, .top, .skip, .count, .search, .apply, .format, .levels]

def name : SystemOption → Text
  | .filter => "$filter".toList
  | .expand => "$expand".toList
  | .select => "$select".toList
  | .orderBy => "$orderby".toList
  | .top => "$top".toList
  | .skip => "$skip".toList
  | .count => "$count".toList
  | .search => "$search".toList
  | .apply => "$apply".toList
  | .format => "$format".toList
  | .levels => "$levels".toList

/-- The option of a name, which is taken as written. -/
def ofName? (text : Text) : Option SystemOption :=
  all.find? fun option => option.name = text

/-- An option whose value is written in the expression grammar. -/
def isExpression : SystemOption → Bool
  | .filter | .expand | .select | .orderBy => true
  | _ => false

theorem ofName?_name (option : SystemOption) : ofName? option.name = some option := by
  cases option <;> decide

/-- Distinct options have distinct names. -/
theorem ofName?_eq_some_iff {text : Text} {option : SystemOption} :
    ofName? text = some option ↔ text = option.name := by
  constructor
  · intro h
    have := List.find?_some h
    simp only [decide_eq_true_eq] at this
    exact this.symm
  · rintro rfl
    exact ofName?_name option

end SystemOption

end ODataRequest
