import ODataRequest.Text.Basic

/-! Text between single quotes: a quote inside it is written twice. Main statement: collapsing
accepts exactly what doubling produces. -/

namespace ODataRequest.Text

/-- The mark around quoted text. -/
abbrev quoteMark : Char := '\x27'

/-- The text with every quote written twice. -/
def doubleQuotes : Text → Text
  | [] => []
  | c :: rest => if c = quoteMark then c :: c :: doubleQuotes rest else c :: doubleQuotes rest

/-- The text with every pair of quotes written once, unless a quote stands alone. -/
def collapseQuotes? : Text → Option Text
  | [] => some []
  | '\x27' :: '\x27' :: rest => (collapseQuotes? rest).map (quoteMark :: ·)
  | c :: rest => if c = quoteMark then none else (collapseQuotes? rest).map (c :: ·)

/-- The text in quotes, as a literal shows it. -/
def quoted (text : Text) : Text :=
  quoteMark :: doubleQuotes text ++ [quoteMark]

theorem collapseQuotes?_doubleQuotes (text : Text) :
    collapseQuotes? (doubleQuotes text) = some text := by
  induction text with
  | nil => rfl
  | cons c rest ih => by_cases h : c = quoteMark <;> simp [doubleQuotes, collapseQuotes?, h, ih]

theorem eq_doubleQuotes_of_collapseQuotes? {text inner : Text}
    (h : collapseQuotes? text = some inner) : text = doubleQuotes inner := by
  fun_induction collapseQuotes? text generalizing inner with
  | case1 => simp_all [doubleQuotes]
  | case2 rest ih =>
    obtain ⟨u, hu, rfl⟩ := Option.map_eq_some_iff.1 h
    simp [doubleQuotes, ih hu]
  | case3 => simp at h
  | case4 c rest _ hc ih =>
    obtain ⟨u, hu, rfl⟩ := Option.map_eq_some_iff.1 h
    simp [doubleQuotes, hc, ih hu]

theorem collapseQuotes?_eq_some_iff {text inner : Text} :
    collapseQuotes? text = some inner ↔ text = doubleQuotes inner :=
  ⟨eq_doubleQuotes_of_collapseQuotes?, fun h => h ▸ collapseQuotes?_doubleQuotes inner⟩

end ODataRequest.Text
