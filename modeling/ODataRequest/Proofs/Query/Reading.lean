import ODataRequest.Proofs.Query.Readers

/-! Reading what is written out. A text that goes on where an operand has ended stops the readers of
operands; a text that a minus sign is left in front of stops every reader that expects anything else,
so that a canonical text with a rejected literal is rejected as a whole. `ReadsAs` covers both
outcomes and composes. -/

namespace ODataRequest

open Text Unicode Nesting

/-- A reading that fails, or leaves a minus sign in front of what is unread. -/
def Derails {α : Type} (result : Except Fault (α × Text)) : Prop :=
  ∀ value rest, result = .ok (value, rest) → rest.head? = some '-'

/-- A reading with an expected outcome: the expected value with the given rest, or no value that
anything could follow. -/
def ReadsAs {α : Type} (result : Except Fault (α × Text)) (expected : Option α) (rest : Text) : Prop :=
  match expected with
  | some value => result = .ok (value, rest)
  | none => Derails result

namespace Derails

variable {α β : Type} {first : Except Fault (α × Text)} {next : α × Text → Except Fault (β × Text)}

theorem bind (hfirst : Derails first)
    (hnext : ∀ value text, text.head? = some '-' → Derails (next (value, text))) :
    Derails (first >>= next) := by
  intro value rest h
  obtain ⟨⟨middle, text⟩, hmiddle, h⟩ := bind_eq_ok.mp h
  exact hnext middle text (hfirst middle text hmiddle) value rest h

theorem of_bind {γ : Type} {first : Except Fault γ} {next : γ → Except Fault (β × Text)}
    (h : ∀ value, first = .ok value → Derails (next value)) : Derails (first >>= next) := by
  intro value rest heq
  obtain ⟨middle, hmiddle, heq⟩ := bind_eq_ok.mp heq
  exact h middle hmiddle value rest heq

/-- A reading that stops before a minus sign. -/
theorem of_minus {value : α} {text : Text} (h : text.head? = some '-') :
    Derails (.ok (value, text)) := by
  intro value rest heq
  cases heq
  exact h

end Derails

namespace ReadsAs

variable {α β : Type} {first : Except Fault (α × Text)} {next : α × Text → Except Fault (β × Text)}
  {expected : Option α} {expect : α → Option β} {middle rest : Text}

theorem bind (hfirst : ReadsAs first expected middle)
    (hnext : ∀ value, expected = some value → ReadsAs (next (value, middle)) (expect value) rest)
    (hderails : ∀ value text, text.head? = some '-' → Derails (next (value, text))) :
    ReadsAs (first >>= next) (expected.bind expect) rest := by
  cases expected with
  | none => exact Derails.bind hfirst hderails
  | some value =>
      have hok : first = .ok (value, middle) := hfirst
      rw [hok]
      exact hnext value rfl

/-- A reading followed by one that only finishes the value. -/
theorem bind_map {finish : α → β} (hfirst : ReadsAs first expected middle)
    (hnext : ∀ value, next (value, middle) = .ok (finish value, rest))
    (hderails : ∀ value text, text.head? = some '-' → Derails (next (value, text))) :
    ReadsAs (first >>= next) (expected.map finish) rest := by
  cases expected with
  | none => exact Derails.bind hfirst hderails
  | some value =>
      have hok : first = .ok (value, middle) := hfirst
      rw [hok]
      exact hnext value

theorem map {finish : α → β} (hfirst : ReadsAs first expected rest) :
    ReadsAs (first.map fun result => (finish result.1, result.2)) (expected.map finish) rest := by
  cases expected with
  | none =>
      intro value rest' h
      cases hresult : first with
      | error e =>
          rw [hresult] at h
          cases h
      | ok result =>
          rw [hresult] at h
          cases h
          exact hfirst _ _ hresult
  | some value =>
      have hok : first = .ok (value, rest) := hfirst
      rw [hok]
      rfl

/-- An item before the other items of its list. -/
theorem cons (others : Text → Except Fault (List α × Text)) {expectedOthers : Option (List α)}
    (hfirst : ReadsAs first expected middle)
    (hothers : ReadsAs (others middle) expectedOthers rest)
    (hderails : ∀ text, text.head? = some '-' → Derails (others text)) :
    ReadsAs (do
      let read ← first
      let more ← others read.2
      .ok (read.1 :: more.1, more.2))
      (expected.bind fun value => expectedOthers.map (value :: ·)) rest := by
  refine hfirst.bind ?_ ?_
  · intro value _
    exact hothers.bind_map (fun _ => rfl) fun _ _ hminus => .of_minus hminus
  · intro value text hminus
    exact (hderails text hminus).bind fun _ _ hminus => .of_minus hminus

end ReadsAs

namespace Reader

variable {text rest start word : Text}

/-! ### A minus sign in front of what is unread -/

/-- Before a minus sign no name and no other mark is found. -/
theorem next?_of_minus (h : text.head? = some '-') {next : Option Lexeme}
    (hnext : Lexeme.next? text = .ok next) : ∃ lexeme, next = some lexeme ∧
      (∀ name, lexeme.token ≠ .name name) ∧ ∀ symbol, lexeme.token = .symbol symbol → symbol = .minus := by
  obtain ⟨others, rfl⟩ := List.head?_eq_some_iff.mp h
  cases next with
  | none =>
      have hblank := Lexeme.all_blank_of_next? hnext
      rw [List.all_cons, Bool.and_eq_true] at hblank
      exact absurd hblank.1 (by decide)
  | some lexeme =>
      refine ⟨lexeme, rfl, ?_⟩
      obtain ⟨blanks, word, htext, hblanks, hspells⟩ := Lexeme.eq_of_next? hnext
      have hnil : blanks = [] := by
        cases blanks with
        | nil => rfl
        | cons c blanks =>
            rw [List.all_cons, Bool.and_eq_true, ← (List.cons.inj htext).1] at hblanks
            exact absurd hblanks.1 (by decide)
      rw [hnil, List.nil_append] at htext
      constructor
      · intro name hname
        rw [hname] at hspells
        cases hspells with
        | name hisname =>
            obtain ⟨c, others', rfl, hc, -⟩ :=
              Lexeme.isWord_cons (Lexeme.isWord_of_isName hisname)
            rw [← (List.cons.inj htext).1] at hc
            exact absurd hc (by decide)
      · intro symbol hsymbol
        rw [hsymbol] at hspells
        cases hspells with
        | symbol =>
            have hchar : '-' = symbol.char := (List.cons.inj htext).1
            cases symbol <;> first | rfl | exact absurd hchar (by decide)

theorem symbol?_of_minus (h : text.head? = some '-') {mark : Symbol} (hmark : mark ≠ .minus)
    {found : Option Text} (hfound : symbol? mark text = .ok found) : found = none := by
  cases found with
  | none => rfl
  | some after =>
      obtain ⟨start, hnext⟩ := next?_of_symbol? hfound
      obtain ⟨lexeme, hlexeme, -, hsymbol⟩ := next?_of_minus h hnext
      cases hlexeme
      exact absurd (hsymbol mark rfl) hmark

theorem word?_of_minus (h : text.head? = some '-') {found : Option Text}
    (hfound : word? word text = .ok found) : found = none := by
  cases found with
  | none => rfl
  | some after =>
      obtain ⟨start, hnext⟩ := next?_of_word? hfound
      obtain ⟨lexeme, hlexeme, hname, -⟩ := next?_of_minus h hnext
      cases hlexeme
      exact absurd rfl (hname word)

/-- A mark that must come next does not come before a minus sign. -/
theorem symbol_of_minus (h : text.head? = some '-') {mark : Symbol} (hmark : mark ≠ .minus)
    {expected : Expectation} (after : Text) : symbol mark expected text ≠ .ok after := by
  intro hok
  have := symbol?_of_minus h hmark (symbol?_of_symbol hok)
  cases this

/-- A closing mark that must follow fails before a minus sign. -/
theorem derails_symbol {α : Type} (h : text.head? = some '-') {mark : Symbol} (hmark : mark ≠ .minus)
    {expected : Expectation} {next : Text → Except Fault (α × Text)} :
    Derails (symbol mark expected text >>= next) :=
  Derails.of_bind fun after hafter => absurd hafter (symbol_of_minus h hmark after)

theorem atEnd_of_minus (h : text.head? = some '-') : atEnd text ≠ .ok () := by
  intro hok
  obtain ⟨next, hnext, hok⟩ := bind_eq_ok.mp hok
  obtain ⟨lexeme, rfl, -⟩ := next?_of_minus h hnext
  exact eq_error_of_unexpected hok

/-! ### Marks and words that are written out -/

theorem symbol?_mark (mark : Symbol) (rest : Text) (hmark : mark ≠ .minus := by decide) :
    symbol? mark (mark.char :: rest) = .ok (some rest) := by
  rw [symbol?, Lexeme.next?_symbol mark rest hmark]
  exact congrArg Except.ok (if_pos rfl)

theorem symbol?_other {mark other : Symbol} (rest : Text) (hother : other ≠ .minus)
    (h : other ≠ mark) : symbol? mark (other.char :: rest) = .ok none := by
  rw [symbol?, Lexeme.next?_symbol other rest hother]
  exact congrArg Except.ok (if_neg h)

theorem symbol_mark (mark : Symbol) (expected : Expectation) (rest : Text)
    (hmark : mark ≠ .minus := by decide) :
    symbol mark expected (mark.char :: rest) = .ok rest := by
  rw [symbol, symbol?_mark mark rest hmark]
  rfl

theorem symbol?_of_name {mark : Symbol}
    (h : Lexeme.next? text = .ok (some ⟨.name word, start, rest⟩)) :
    symbol? mark text = .ok none := by
  rw [symbol?, h]
  rfl

theorem symbol?_of_literal {mark : Symbol} {value : Literal}
    (h : Lexeme.next? text = .ok (some ⟨.literal value, start, rest⟩)) :
    symbol? mark text = .ok none := by
  rw [symbol?, h]
  rfl

theorem symbol?_of_symbol_ne {mark other : Symbol} (hother : other ≠ mark)
    (h : Lexeme.next? text = .ok (some ⟨.symbol other, start, rest⟩)) :
    symbol? mark text = .ok none := by
  rw [symbol?, h]
  exact congrArg Except.ok (if_neg hother)

theorem word?_of_name (h : Lexeme.next? text = .ok (some ⟨.name word, start, rest⟩)) :
    word? word text = .ok (some rest) := by
  rw [word?, h]
  exact congrArg Except.ok (if_pos rfl)

theorem word?_of_name_ne {other : Text} (hother : other ≠ word)
    (h : Lexeme.next? text = .ok (some ⟨.name other, start, rest⟩)) :
    word? word text = .ok none := by
  rw [word?, h]
  exact congrArg Except.ok (if_neg hother)

theorem word?_of_literal {value : Literal}
    (h : Lexeme.next? text = .ok (some ⟨.literal value, start, rest⟩)) :
    word? word text = .ok none := by
  rw [word?, h]
  rfl

theorem word?_of_symbol {mark : Symbol}
    (h : Lexeme.next? text = .ok (some ⟨.symbol mark, start, rest⟩)) :
    word? word text = .ok none := by
  rw [word?, h]
  rfl

theorem name_of_next? (h : Lexeme.next? text = .ok (some ⟨.name word, start, rest⟩))
    (expected : Expectation) : name expected text = .ok (word, start, rest) := by
  rw [name, h]
  rfl

theorem checkMember_of_isMember (h : isMember word = true) (start : Text) :
    checkMember word start = .ok () := by
  simp only [isMember, Bool.and_eq_true, bne_iff_ne, ne_eq] at h
  rw [checkMember, if_neg h.1.2, if_neg h.2]

theorem isName_of_isMember (h : isMember word = true) : Lexeme.isName word = true := by
  simp only [isMember, Bool.and_eq_true] at h
  exact h.1.1

end Reader

/-! ### Where an operand has ended -/

/-- A token that carries on an operand of a strength: an operator that binds at least as tightly, a
further member of a path, or a list in parentheses. -/
def Token.CarriesOn (strength : Nat) : Token → Prop
  | .name word => ∃ op : BinaryOperator, op.keyword = word ∧ strength ≤ op.precedence
  | .literal _ => False
  | .symbol mark => mark = .slash ∨ mark = .openParen

/-- A text before which an operand of a strength ends. -/
structure Stops (strength : Nat) (rest : Text) : Prop where
  breaks : Lexeme.breaks rest = true
  next : ∃ next, Lexeme.next? rest = .ok next ∧
    ∀ lexeme, next = some lexeme → ¬lexeme.token.CarriesOn strength

/-- A text before which an item ends: nothing, or one of the given marks. -/
def Ends (marks : List Symbol) (rest : Text) : Prop :=
  rest = [] ∨ ∃ mark ∈ marks, ∃ others, rest = mark.char :: others

/-- The marks after an item of a list within a list of options. -/
abbrev itemMarks : List Symbol := [.comma, .semicolon, .closeParen]

/-- The marks after the value of an option. -/
abbrev valueMarks : List Symbol := [.semicolon, .closeParen]

namespace Stops

variable {strength strength' : Nat} {rest : Text}

theorem mono (h : Stops strength rest) (hle : strength ≤ strength') : Stops strength' rest := by
  obtain ⟨next, hnext, hstop⟩ := h.next
  refine ⟨h.breaks, next, hnext, fun lexeme hlexeme hcarries => hstop lexeme hlexeme ?_⟩
  cases htoken : lexeme.token with
  | name word =>
      rw [htoken] at hcarries
      obtain ⟨op, hkeyword, hop⟩ := hcarries
      exact ⟨op, hkeyword, Nat.le_trans hle hop⟩
  | literal value =>
      rw [htoken] at hcarries
      exact hcarries
  | symbol mark =>
      rw [htoken] at hcarries
      exact hcarries

theorem symbol? (h : Stops strength rest) {mark : Symbol} (hmark : mark = .slash ∨ mark = .openParen) :
    Reader.symbol? mark rest = .ok none := by
  obtain ⟨next, hnext, hstop⟩ := h.next
  cases next with
  | none =>
      rw [Reader.symbol?, hnext]
      rfl
  | some lexeme =>
      obtain ⟨token, start, after⟩ := lexeme
      cases token with
      | name word => exact Reader.symbol?_of_name hnext
      | literal value => exact Reader.symbol?_of_literal hnext
      | symbol found =>
          refine Reader.symbol?_of_symbol_ne ?_ hnext
          rintro rfl
          exact hstop _ rfl hmark

theorem operator? (h : Stops strength rest) {operators : List BinaryOperator}
    (hoperators : ∀ op ∈ operators, strength ≤ op.precedence) :
    Grammar.operator? operators rest = .ok none := by
  obtain ⟨next, hnext, hstop⟩ := h.next
  rw [Grammar.operator?, hnext]
  cases next with
  | none => rfl
  | some lexeme =>
      obtain ⟨token, start, after⟩ := lexeme
      cases token with
      | name word =>
          have hfind : operators.find? (fun op => op.keyword = word) = none := by
            rw [List.find?_eq_none]
            intro op hmem hkeyword
            exact hstop _ rfl ⟨op, of_decide_eq_true hkeyword, hoperators op hmem⟩
          show Except.ok ((operators.find? fun op => op.keyword = word).map (·, after)) = _
          rw [hfind]
          rfl
      | literal value => rfl
      | symbol found => rfl

/-- Blanks up to the end of a text. -/
theorem blank (h : rest.all isWhiteSpace = true) : Stops strength rest := by
  refine ⟨?_, none, Lexeme.next?_of_blank h, by simp⟩
  cases rest with
  | nil => rfl
  | cons c rest =>
      rw [List.all_cons, Bool.and_eq_true] at h
      have hname : Lexeme.isNameContinue c = false := by
        rw [Bool.eq_false_iff]
        intro hname
        rw [Lexeme.not_blank_of_isNameContinue hname] at h
        exact absurd h.1 Bool.false_ne_true
      have hminus : c ≠ '-' := by
        rintro rfl
        exact absurd h.1 (by decide)
      have hquote : c ≠ quoteMark := by
        rintro rfl
        exact absurd h.1 (by decide)
      simp [Lexeme.breaks, hname, hminus, hquote]

/-- The end of a text. -/
theorem nil : Stops strength [] :=
  blank rfl

theorem mark {mark : Symbol} (hminus : mark ≠ .minus) (hslash : mark ≠ .slash)
    (hopen : mark ≠ .openParen) (rest : Text) : Stops strength (mark.char :: rest) := by
  refine ⟨?_, _, Lexeme.next?_symbol mark rest hminus, ?_⟩
  · cases mark <;> first | rfl | exact absurd rfl hminus
  · rintro lexeme hlexeme hcarries
    cases hlexeme
    rcases hcarries with rfl | rfl
    · exact hslash rfl
    · exact hopen rfl

theorem isName_keyword (op : BinaryOperator) : Lexeme.isName op.keyword = true := by
  cases op <;> decide

theorem next?_keyword (op : BinaryOperator) (rest : Text) :
    Lexeme.next? (' ' :: (op.keyword ++ ' ' :: rest)) =
      .ok (some ⟨.name op.keyword, op.keyword ++ ' ' :: rest, ' ' :: rest⟩) := by
  rw [Lexeme.next?_space, Lexeme.next?_name (isName_keyword op) rfl]

/-- An operator that binds looser. -/
theorem keyword {op : BinaryOperator} (h : op.precedence < strength) (rest : Text) :
    Stops strength (' ' :: (op.keyword ++ ' ' :: rest)) := by
  refine ⟨rfl, _, next?_keyword op rest, ?_⟩
  rintro lexeme hlexeme hcarries
  cases hlexeme
  obtain ⟨other, hkeyword, hother⟩ := hcarries
  rw [BinaryOperator.keyword_injective hkeyword] at hother
  exact absurd h (Nat.not_lt_of_le hother)

end Stops

namespace Ends

variable {marks marks' : List Symbol} {rest : Text}

theorem mono (h : Ends marks rest) (hsubset : marks ⊆ marks') : Ends marks' rest := by
  rcases h with rfl | ⟨mark, hmem, others, rfl⟩
  · exact Or.inl rfl
  · exact Or.inr ⟨mark, hsubset hmem, others, rfl⟩

theorem stops (h : Ends marks rest) (hmarks : ∀ mark ∈ marks, mark ≠ .minus ∧ mark ≠ .slash ∧ mark ≠ .openParen)
    {strength : Nat} : Stops strength rest := by
  rcases h with rfl | ⟨mark, hmem, others, rfl⟩
  · exact Stops.nil
  · obtain ⟨hminus, hslash, hopen⟩ := hmarks mark hmem
    exact Stops.mark hminus hslash hopen others

theorem symbol? (h : Ends marks rest) (hminus : Symbol.minus ∉ marks) {mark : Symbol}
    (hmark : mark ∉ marks) : Reader.symbol? mark rest = .ok none := by
  rcases h with rfl | ⟨other, hmem, others, rfl⟩
  · rfl
  · refine Reader.symbol?_other others ?_ ?_
    · rintro rfl
      exact hminus hmem
    · rintro rfl
      exact hmark hmem

theorem word? (h : Ends marks rest) (hminus : Symbol.minus ∉ marks) (word : Text) :
    Reader.word? word rest = .ok none := by
  rcases h with rfl | ⟨other, hmem, others, rfl⟩
  · rfl
  · refine Reader.word?_of_symbol (Lexeme.next?_symbol other others ?_)
    rintro rfl
    exact hminus hmem

end Ends

end ODataRequest
