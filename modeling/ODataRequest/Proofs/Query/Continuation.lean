import ODataRequest.Proofs.Query.OptionRetelling

/-! A text that goes on. Where a mark that ends an item stands behind a text, the text is read as it is
read on its own, and the mark and what follows it are left. No reader looks past the mark: whether a text
is read as a token depends only on where it breaks off, and a value that is kept as it is ends there. -/

namespace ODataRequest

open Text Unicode Nesting Reader

namespace Lexeme

variable {word rest rest' : Text} {token : Token}

/-! ### Where a token breaks off -/

/-- A text that ends what stands before it just where the other one does. -/
structure Keeps (rest rest' : Text) : Prop where
  head : rest'.head? = rest.head? ∨ breaks rest' = true
  /-- The end of an identifier with which it begins is there in the other text too. -/
  ending : ∀ {front ending after' : Text}, isGuid (front ++ ending) = true → ending ≠ [] →
    rest' = ending ++ after' → continuesName after' = false →
    ∃ after, rest = ending ++ after ∧ continuesName after = false

theorem continuesName_append {front : Text} (h : front ≠ []) (rest rest' : Text) :
    continuesName (front ++ rest) = continuesName (front ++ rest') := by
  rw [continuesName, continuesName, List.head?_append_of_ne_nil front h,
    List.head?_append_of_ne_nil front h]

theorem BreaksOff.keeps (h : BreaksOff word rest) (hkeeps : Keeps rest rest') : BreaksOff word rest' where
  continues := by
    intro hquote
    rcases hkeeps.head with hsame | hbreaks
    · rw [continuesName, hsame]
      exact h.continues hquote
    · exact continuesName_of_breaks hbreaks
  quote := by
    intro hquote
    rcases hkeeps.head with hsame | hbreaks
    · rw [hsame]
      exact h.quote hquote
    · exact head?_ne_quote_of_breaks hbreaks
  guid := by
    intro hnot
    rw [Bool.eq_false_iff]
    intro hstarts
    have hother : startsWithGuid (word ++ rest) = true := by
      obtain ⟨guid, after', hsplit, hguid, hcontinues⟩ := isGuid_of_startsWithGuid hstarts
      have hproper : ∀ {more : Text}, guid = word ++ more ∨ word = guid ++ more → more ≠ [] := by
        rintro more hmore rfl
        rw [List.append_nil, List.append_nil] at hmore
        have heq : guid = word := hmore.elim id Eq.symm
        rw [heq, hnot] at hguid
        cases hguid
      rcases List.append_eq_append_iff.mp hsplit with ⟨ending, hends, hrest'⟩ | ⟨more, hword, hafter'⟩
      · rw [hends] at hguid
        obtain ⟨after, hrest, hafter⟩ :=
          hkeeps.ending hguid (hproper (Or.inl hends)) hrest' hcontinues
        rw [hrest, ← List.append_assoc]
        exact startsWithGuid_of_isGuid hguid hafter
      · rw [hafter', continuesName_append (hproper (Or.inr hword)) rest' rest] at hcontinues
        rw [hword, List.append_assoc]
        exact startsWithGuid_of_isGuid hguid hcontinues
    rw [h.guid hnot] at hother
    cases hother

/-- A token that stands before a text stands before every other one that ends it there too. -/
theorem Stands.keeps (h : Stands word token rest) (hkeeps : Keeps rest rest') :
    Stands word token rest' := by
  cases h with
  | literal hwritten hrest => exact .literal hwritten (hrest.keeps hkeeps)
  | name hname hrest => exact .name hname (hrest.keeps hkeeps)
  | minus hword hdigit =>
      refine .minus hword ?_
      rcases hkeeps.head with hsame | hbreaks
      · rw [hsame]
        exact hdigit
      · cases rest' with
        | nil => rfl
        | cons c others =>
            rw [Bool.eq_false_iff]
            intro hdigit
            have hname : isNameContinue c = true := isNameContinue_of_isDigit hdigit
            rw [(breaks_head hbreaks rfl).1] at hname
            cases hname
  | symbol hword hsymbol => exact .symbol hword hsymbol

end Lexeme

/-! ### A mark behind a text -/

theorem Reader.symbol_blanks_close {blanks : Text} {expected : Expectation}
    (hblanks : blanks.all isWhiteSpace = true) (rest : Text) :
    symbol .closeParen expected (blanks ++ ')' :: rest) = .ok rest := by
  rw [symbol, symbol?, Lexeme.next?_blanks hblanks]
  rfl

/-- A text, and the same text before a mark and whatever follows it. -/
def Followed (mark : Symbol) (more text text' : Text) : Prop :=
  text' = text ++ mark.char :: more

variable {text start rest more : Text} {mark : Symbol}

theorem breaks_endMark (hmark : mark ∈ endMarks) (more : Text) :
    Lexeme.breaks (mark.char :: more) = true := by
  simp only [endMarks, List.mem_cons, List.not_mem_nil, or_false] at hmark
  rcases hmark with rfl | rfl | rfl <;> rfl

/-- No mark that ends an item stands in an identifier. -/
theorem not_mem_of_endMark {guid : Text} (hmark : mark ∈ endMarks) (hguid : isGuid guid = true) :
    mark.char ∉ guid := by
  have hmarks : ∀ mark ∈ endMarks, isHexDigit mark.char = false ∧ mark.char ≠ '-' := by decide
  intro hmem
  obtain ⟨hhex, hminus⟩ := hmarks mark hmark
  rcases mem_of_isGuid hguid hmem with hchar | hchar
  · rw [hhex] at hchar
    cases hchar
  · exact hminus hchar

theorem Lexeme.keeps_followed (hmark : mark ∈ endMarks) (text more : Text) :
    Lexeme.Keeps text (text ++ mark.char :: more) where
  head := by
    cases text with
    | cons c others => exact Or.inl rfl
    | nil => exact Or.inr (breaks_endMark hmark more)
  ending := by
    intro front ending after' hguid _ heq hafter'
    have hnot : mark.char ∉ ending := fun hmem =>
      not_mem_of_endMark hmark hguid (List.mem_append_right front hmem)
    rcases List.append_eq_append_iff.mp heq with ⟨last, rfl, hmore⟩ | ⟨last, rfl, rfl⟩
    · cases last with
      | nil => exact ⟨[], by rw [List.append_nil, List.append_nil], rfl⟩
      | cons c last =>
          rw [(List.cons.inj hmore).1] at hnot
          exact absurd (List.mem_append_right text List.mem_cons_self) hnot
    · refine ⟨last, rfl, ?_⟩
      cases last with
      | nil => rfl
      | cons c last => exact hafter'

namespace Followed

theorem next?_token (hmark : mark ∈ endMarks) {token : Token}
    (h : Lexeme.next? text = .ok (some ⟨token, start, rest⟩)) :
    ∃ start', Lexeme.next? (text ++ mark.char :: more) =
      .ok (some ⟨token, start', rest ++ mark.char :: more⟩) := by
  obtain ⟨blanks, word, rfl, hblanks, -, hstands⟩ := Lexeme.stands_of_next? h
  rw [List.append_assoc, List.append_assoc, Lexeme.next?_blanks hblanks]
  exact ⟨_, Lexeme.next?_of_stands (hstands.keeps (Lexeme.keeps_followed hmark rest more))⟩

theorem assignment (hmark : mark ∈ endMarks) {option : SystemOption} {after : Text}
    (h : Grammar.Assignment text option after) :
    Grammar.Assignment (text ++ mark.char :: more) option (after ++ mark.char :: more) := by
  obtain ⟨start, afterName, hnext, hequals⟩ := h
  obtain ⟨start', hnext'⟩ := next?_token hmark hnext
  obtain ⟨_, hsign⟩ := next?_of_symbol? hequals
  obtain ⟨_, hsign'⟩ := next?_token hmark hsign
  refine ⟨start', _, hnext', ?_⟩
  rw [symbol?, hsign']
  exact congrArg Except.ok (if_pos rfl)

/-- What stands before the mark is told the same, with lists of options of all kinds in it. -/
theorem retells (hmark : mark ∈ endMarks) : Retells [] [.count, .expand] (Followed mark more) where
  hides := nofun
  counted := List.mem_cons_self
  next := by
    rintro text _ rfl next hnext
    cases next with
    | none =>
        have hmore := Lexeme.next?_blanks (Lexeme.all_blank_of_next? hnext) (mark.char :: more)
        refine ⟨_, hmore.trans (Lexeme.next?_symbol mark more ?_), .closed hmark⟩
        rintro rfl
        exact absurd hmark (by decide)
    | some lexeme =>
        obtain ⟨start', hnext'⟩ := next?_token hmark hnext
        exact ⟨_, hnext', .token fun _ => rfl⟩
  plain := by
    rintro kind option text _ after - - - rfl hassignment hgoes
    refine ⟨_, assignment hmark hassignment, ?_⟩
    rw [spanVerbatim_append_right hgoes]
    exact ⟨rfl, rfl⟩

end Followed

namespace Grammar

variable {scopes : Scopes} {levels : Nat}

/-- No scopes bind the name of a hidden option where none is hidden. -/
theorem free_nil (scopes : Scopes) : scopes.Free [] :=
  nofun

/-- An expression is read up to the mark behind it as it is read on its own. -/
theorem expression_followed (hmark : mark ∈ endMarks) (more : Text) {expression : Expression}
    (h : Grammar.expression (nested levels) scopes text = .ok (expression, rest)) :
    Grammar.expression (nested levels) scopes (text ++ mark.char :: more) =
      .ok (expression, rest ++ mark.char :: more) := by
  obtain ⟨_, hread, rfl⟩ := expression_retold (Followed.retells hmark) (free_nil scopes) rfl h
  exact hread

/-- The value of an option is read up to the mark behind it as it is read on its own. -/
theorem optionValue_followed (hmark : mark ∈ endMarks) (more : Text) {kind : OptionListKind}
    {option : SystemOption} {value : OptionValue} (hstack : scopes ≠ [])
    (hallows : kind.allows option = true)
    (hclosed : option.isExpression = false → Closed separates text)
    (hrest : rest.all isWhiteSpace = true)
    (h : optionValue (nested levels) scopes option text = .ok (value, rest)) :
    ∃ blanks, blanks.all isWhiteSpace = true ∧
      optionValue (nested levels) scopes option (text ++ mark.char :: more) =
        .ok (value, blanks ++ mark.char :: more) := by
  have hretells : Retells [] [.count, .expand] (Followed mark more) := Followed.retells hmark
  have hkind : kind ∈ [OptionListKind.count, .expand] := by cases kind <;> decide
  cases hexpression : option.isExpression with
  | true =>
      obtain ⟨_, hvalue, ⟨rfl⟩⟩ := expressionValue_transfers hretells (nested_retold hretells levels)
        (free_nil scopes) (nested_sound levels) hkind hallows hexpression rfl _ h
      exact ⟨rest, hrest, hvalue⟩
  | false =>
      replace hclosed := hclosed hexpression
      have hown : (spanVerbatim 0 false text).1 = text := by
        have hspan := spanVerbatim_append hclosed []
        rw [List.append_nil] at hspan
        exact (congrArg Prod.fst hspan).trans (List.append_nil text)
      have hspan := spanVerbatim_closed hclosed hmark more
      have hsame : (spanVerbatim 0 false (text ++ mark.char :: more)).1.trim =
          (spanVerbatim 0 false text).1.trim := by
        rw [hspan, hown]
      have hvalue := optionValue_of_trim hstack hexpression hsame h
      rw [hspan] at hvalue
      exact ⟨[], rfl, hvalue⟩

end Grammar

end ODataRequest
