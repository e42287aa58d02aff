import ODataRequest.Proofs.Query.Continuation
import ODataRequest.Proofs.Query.RoundTrip

/-! White space between tokens. Whether a text is read as a token depends on where it breaks off, so
that white space may stand wherever one token ends and the next one begins, and in front of and behind
a value that is kept as it is. Main statement: an accepted expression is accepted as the same tree with
more white space at any of these places, and between parentheses with one more level of nesting. -/

namespace ODataRequest

open Text Unicode Nesting Reader Grammar

namespace Lexeme

variable {word rest rest' : Text} {token : Token}

/-! ### Where an identifier ends -/

theorem not_breaks_of_isGuid {front others : Text} {c : Char}
    (h : isGuid (front ++ c :: others) = true) : breaks (c :: rest) = false := by
  rw [Bool.eq_false_iff]
  intro hbreaks
  obtain ⟨hname, hminus, -⟩ := breaks_head hbreaks rfl
  rcases mem_of_isGuid h (List.mem_append_right front List.mem_cons_self) with hhex | hhyphen
  · rw [isNameContinue_of_isHexDigit hhex] at hname
    cases hname
  · exact hminus hhyphen

/-- The end of an identifier that stands as a token runs into no name. -/
theorem Stands.not_continuesName {front : Text} (h : Stands word token rest)
    (hguid : isGuid (front ++ word) = true) : continuesName rest = false := by
  have hquote : quoteMark ∉ word :=
    fun hmem => not_mem_of_isGuid hguid (List.mem_append_right front hmem)
  have hmark : ∀ {symbol : Symbol}, word ≠ [symbol.char] := by
    rintro symbol rfl
    have hhex := last_of_isGuid hguid
    have hnot : isHexDigit symbol.char = false := by cases symbol <;> decide
    rw [hnot] at hhex
    cases hhex
  cases h with
  | literal _ hrest => exact hrest.continues hquote
  | name _ hrest => exact hrest.continues hquote
  | minus hword _ => exact absurd hword (hmark : word ≠ [Symbol.minus.char])
  | symbol hword _ => exact absurd hword hmark

end Lexeme

/-! ### White space between tokens -/

/-- White space, and the white space that takes its place. It may not vanish. -/
structure Gap (blanks blanks' : Text) : Prop where
  before : blanks.all isWhiteSpace = true
  after : blanks'.all isWhiteSpace = true
  stays : blanks' = [] → blanks = []

/-- The same text with other white space at the places between its tokens. -/
inductive Respaced : Text → Text → Prop where
  | gap {blanks blanks' : Text} (h : Gap blanks blanks') (text : Text) :
      Respaced (blanks ++ text) (blanks' ++ text)
  | token {blanks blanks' word rest rest' : Text} {token : Token} (h : Gap blanks blanks')
      (hnext : Lexeme.next? (word ++ rest) = .ok (some ⟨token, word ++ rest, rest⟩))
      (htoken : token ≠ .name SystemOption.search.name) (hrest : Respaced rest rest') :
      Respaced (blanks ++ (word ++ rest)) (blanks' ++ (word ++ rest'))
  /-- Around the sign and the value of a search, which is no sequence of tokens and stays as it is, before
  the mark that ends it, and at any places behind that. -/
  | search {blanks blanks' sign sign' front front' value back back' rest rest' : Text} {mark : Symbol}
      (h : Gap blanks blanks') (hsign : Gap sign sign') (hfront : Gap front front')
      (hvalue : Closed separates value) (hback : Gap back back')
      (hmark : mark ∈ [.semicolon, .ampersand, .closeParen]) (hrest : Respaced rest rest') :
      Respaced
        (blanks ++ (SystemOption.search.name ++
          (sign ++ '=' :: (front ++ (value ++ back) ++ mark.char :: rest))))
        (blanks' ++ (SystemOption.search.name ++
          (sign' ++ '=' :: (front' ++ (value ++ back') ++ mark.char :: rest'))))

variable {text text' start rest rest' blanks blanks' : Text}

namespace Gap

theorem nil : Gap [] [] :=
  ⟨rfl, rfl, id⟩

theorem head (h : Gap blanks blanks') (hsame : rest'.head? = rest.head?) :
    (blanks' ++ rest').head? = (blanks ++ rest).head? ∨ Lexeme.breaks (blanks' ++ rest') = true := by
  by_cases hnil : blanks' = []
  · rw [hnil, h.stays hnil]
    exact Or.inl hsame
  · exact Or.inr (breaks_of_blanks h.after hnil rest')

/-- An identifier does not end behind white space. -/
theorem eq_nil {front ending after' : Text} (h : Gap blanks blanks')
    (hguid : isGuid (front ++ ending) = true) (hnonempty : ending ≠ [])
    (heq : blanks' ++ rest' = ending ++ after') : blanks' = [] ∧ blanks = [] := by
  have hnil : blanks' = [] := by
    by_contra hne
    have hbreaks := breaks_of_blanks h.after hne rest'
    obtain ⟨c, others, rfl⟩ := List.exists_cons_of_ne_nil hnonempty
    rw [heq, List.cons_append, Lexeme.not_breaks_of_isGuid hguid] at hbreaks
    cases hbreaks
  exact ⟨hnil, h.stays hnil⟩

end Gap

namespace Respaced

theorem refl (text : Text) : Respaced text text :=
  .gap Gap.nil text

theorem stands {word : Text} {token : Token}
    (hnext : Lexeme.next? (word ++ rest) = .ok (some ⟨token, word ++ rest, rest⟩)) :
    Lexeme.Stands word token rest := by
  obtain ⟨_, word', -, -, hword, hstands⟩ := Lexeme.stands_of_next? hnext
  rw [List.append_cancel_right hword]
  exact hstands

theorem head (h : Respaced text text') :
    text'.head? = text.head? ∨ Lexeme.breaks text' = true := by
  cases h with
  | gap hgap text => exact hgap.head rfl
  | token hgap hnext _ _ =>
      have hnonempty := (stands hnext).spells.ne_nil
      refine hgap.head ?_
      rw [List.head?_append_of_ne_nil _ hnonempty, List.head?_append_of_ne_nil _ hnonempty]
  | search hgap _ _ _ _ _ _ => exact hgap.head rfl

theorem ending (h : Respaced text text') {front ending after' : Text}
    (hguid : isGuid (front ++ ending) = true) (hnonempty : ending ≠ []) (heq : text' = ending ++ after')
    (hafter' : Lexeme.continuesName after' = false) :
    ∃ after, text = ending ++ after ∧ Lexeme.continuesName after = false := by
  induction h generalizing front ending after' with
  | gap hgap text =>
      obtain ⟨rfl, rfl⟩ := hgap.eq_nil hguid hnonempty heq
      exact ⟨after', heq, hafter'⟩
  | @token _ _ word rest rest' _ hgap hnext _ hrest ih =>
      obtain ⟨rfl, rfl⟩ := hgap.eq_nil hguid hnonempty heq
      have hwhole : ∀ {front : Text}, isGuid (front ++ word) = true →
          Lexeme.continuesName rest = false := (stands hnext).not_continuesName
      rw [List.nil_append] at heq ⊢
      rcases List.append_eq_append_iff.mp heq with ⟨more, rfl, hrest'⟩ | ⟨more, rfl, rfl⟩
      · by_cases hmore : more = []
        · rw [hmore, List.append_nil] at hguid ⊢
          exact ⟨rest, rfl, hwhole hguid⟩
        · rw [← List.append_assoc] at hguid
          obtain ⟨after, rfl, hafter⟩ := ih hguid hmore hrest' hafter'
          exact ⟨after, (List.append_assoc _ _ _).symm, hafter⟩
      · by_cases hmore : more = []
        · rw [hmore, List.append_nil] at hwhole ⊢
          exact ⟨rest, rfl, hwhole hguid⟩
        · refine ⟨more ++ rest, List.append_assoc _ _ _, ?_⟩
          rwa [Lexeme.continuesName_append hmore rest rest']
  | search hgap _ _ _ _ _ _ _ =>
      obtain ⟨rfl, rfl⟩ := hgap.eq_nil hguid hnonempty heq
      obtain ⟨c, others, rfl⟩ := List.exists_cons_of_ne_nil hnonempty
      have hdollar : '$' = c := (List.cons.inj heq).1
      have hmem := mem_of_isGuid hguid (List.mem_append_right front List.mem_cons_self)
      rw [← hdollar] at hmem
      exact absurd hmem (by decide)

/-- Other white space leaves every token before it as it is. -/
theorem keeps (h : Respaced text text') : Lexeme.Keeps text text' :=
  ⟨h.head, fun hguid hnonempty heq hafter => h.ending hguid hnonempty heq hafter⟩

/-! ### The same tokens -/

theorem next (h : Respaced text text') :
    Transfers (NextAlike [.search] Respaced) (Lexeme.next? text) (Lexeme.next? text') := by
  cases h with
  | gap hgap text =>
      rw [Lexeme.next?_blanks hgap.before, Lexeme.next?_blanks hgap.after]
      intro next hnext
      cases next with
      | none => exact ⟨none, hnext, .ended⟩
      | some lexeme => exact ⟨some lexeme, hnext, .token fun _ => refl lexeme.rest⟩
  | token hgap hnext _ hrest =>
      rw [Lexeme.next?_blanks hgap.before, Lexeme.next?_blanks hgap.after, hnext,
        Lexeme.next?_of_stands ((stands hnext).keeps hrest.keeps)]
      exact .ok (.token fun _ => hrest)
  | search hgap hsign _ _ _ _ _ =>
      rw [Lexeme.next?_blanks hgap.before, Lexeme.next?_blanks hgap.after,
        next?_optionName hsign.before, next?_optionName hsign.after]
      exact .ok (.token fun hopen => absurd rfl (hopen .search (List.mem_singleton.mpr rfl)))

theorem assignment (h : Respaced text text') {after : Text} (hassignment : Assignment text .search after)
    (hgoes : (spanVerbatim 0 false after).2 ≠ []) : ∃ after', Assignment text' .search after' ∧
      (spanVerbatim 0 false after').1.trim = (spanVerbatim 0 false after).1.trim ∧
      Respaced (spanVerbatim 0 false after).2 (spanVerbatim 0 false after').2 := by
  cases h with
  | gap hgap text =>
      obtain ⟨start, afterName, hnext, hequals⟩ := hassignment
      rw [Lexeme.next?_blanks hgap.before] at hnext
      refine ⟨after, ⟨start, afterName, ?_, hequals⟩, rfl, refl _⟩
      rwa [Lexeme.next?_blanks hgap.after]
  | token hgap hnext htoken _ =>
      obtain ⟨start, afterName, hname, -⟩ := hassignment
      rw [Lexeme.next?_blanks hgap.before, hnext] at hname
      cases hname
      exact absurd rfl htoken
  | @search blanks blanks' sign sign' front front' value back back' rest rest' mark
      hgap hsign hfront hvalue hback hmark hrest =>
      have hspan : ∀ {front back : Text}, front.all isWhiteSpace = true → back.all isWhiteSpace = true →
          ∀ rest, spanVerbatim 0 false (front ++ (value ++ back) ++ mark.char :: rest) =
            (front ++ (value ++ back), mark.char :: rest) := by
        intro front back hfront hback rest
        exact spanVerbatim_closed ((Lexeme.blank_closed hfront).append
          (hvalue.append (Lexeme.blank_closed hback))) hmark rest
      obtain rfl := hassignment.unique (assignment_spaced hgap.before hsign.before .search _)
      refine ⟨_, assignment_spaced hgap.after hsign.after .search _, ?_⟩
      rw [hspan hfront.before hback.before, hspan hfront.after hback.after]
      refine ⟨?_, ?_⟩
      · rw [trim_of_blanks hfront.before hback.before, trim_of_blanks hfront.after hback.after]
      · have hnext := Lexeme.next?_symbol mark rest (by rintro rfl; simp at hmark)
        show Respaced ([] ++ ([mark.char] ++ rest)) ([] ++ ([mark.char] ++ rest'))
        exact token Gap.nil hnext nofun hrest

theorem retells : Retells [.search] [.count] Respaced where
  hides := by decide
  counted := List.mem_singleton.mpr rfl
  next := next
  plain := by
    intro kind option text text' after hkind hallows hplain h hassignment hgoes
    obtain rfl := List.mem_singleton.mp hkind
    obtain rfl : option = .search := by
      revert hallows hplain
      cases option <;> decide
    exact h.assignment hassignment hgoes

/-- White space stays the only thing in a text. -/
theorem blank (h : Respaced text text') (hblank : text.all isWhiteSpace = true) :
    text'.all isWhiteSpace = true := by
  have hended := Lexeme.next?_of_blank hblank
  cases h with
  | gap hgap text =>
      rw [List.all_append, Bool.and_eq_true] at hblank ⊢
      exact ⟨hgap.after, hblank.2⟩
  | token hgap hnext _ _ =>
      rw [Lexeme.next?_blanks hgap.before, hnext] at hended
      cases hended
  | search hgap hsign _ _ _ _ _ =>
      rw [Lexeme.next?_blanks hgap.before, next?_optionName hsign.before] at hended
      cases hended

end Respaced

/-! ### Whole expressions -/

theorem readWhole_of_blank {α : Type} {reader : Reader α} {value : α}
    (h : reader text = .ok (value, rest)) (hrest : rest.all isWhiteSpace = true) :
    readWhole reader text = .ok value := by
  rw [readWhole, h, ok_bind]
  dsimp only
  rw [atEnd, Lexeme.next?_of_blank hrest]
  rfl

namespace Grammar

variable {expression : Expression} {levels : Nat}

theorem operand_parenthesized (hrest : rest.all isWhiteSpace = true)
    (hread : Grammar.expression (nested levels) [] text = .ok (expression, rest)) :
    operand (nested (levels + 1)) [] (parenthesized text) = .ok (expression, []) := by
  have hread' : Grammar.expression (nested levels) [] (text ++ [')']) = .ok (expression, rest ++ [')']) :=
    @expression_followed _ _ .closeParen _ _ (by decide) [] _ hread
  have hopen := Lexeme.next?_symbol .openParen (text ++ [')'])
  have hclose : symbol .closeParen .closeGroup (rest ++ [')']) = .ok [] := symbol_blanks_close hrest []
  have hinner : nested (levels + 1) .expression [] (text ++ [')']) = .ok (expression, rest ++ [')']) :=
    hread'
  show operand (nested (levels + 1)) [] (Symbol.openParen.char :: (text ++ [')'])) = _
  rw [operand_of_open hopen, primary, hopen, ok_bind]
  dsimp only
  rw [hinner, ok_bind]
  dsimp only
  rw [hclose, ok_bind]

end Grammar

/-- **White space between the tokens of an accepted expression does not matter, and parentheses around
it cost one level of nesting.** -/
theorem Expression.parse_respaced {raw : Text} {maxDepth : Nat} {expression : Expression}
    (h : Expression.parse raw maxDepth = .ok expression) :
    (∀ raw', Respaced raw raw' → Expression.parse raw' maxDepth = .ok expression) ∧
      Expression.parse (parenthesized raw) (maxDepth + 1) = .ok expression := by
  obtain ⟨rest, hread, hrest⟩ := eq_ok_of_readWhole (eq_ok_of_mapError h)
  refine ⟨?_, ?_⟩
  · intro raw' hrespaced
    obtain ⟨rest', hread', hleft⟩ :=
      expression_retold Respaced.retells (fun _ _ => rfl) hrespaced hread
    exact mapError_eq_ok_iff.mpr (readWhole_of_blank hread' (hleft.blank hrest))
  · exact mapError_eq_ok_iff.mpr
      (readWhole_eq_ok (strata_of_operand (operand_parenthesized hrest hread) 5))

/-- White space around a slash, and around the sign and the value of a search. -/
theorem Expression.parse_respaced_search : ∃ expression,
    Expression.parse "Items/$count($search=a or b)gt 2".toList 3 = .ok expression ∧
      Expression.parse "Items /$count( $search =  a or b )gt 2 ".toList 3 = .ok expression ∧
      Expression.parse "(Items/$count($search=a or b)gt 2)".toList 4 = .ok expression := by
  have hgap : Gap [] [' '] := ⟨rfl, rfl, nofun⟩
  have htwo := @Respaced.token [' '] [' '] "2".toList _ _ (.literal (.integer 2)) ⟨rfl, rfl, id⟩
    (by decide) nofun (.gap hgap [])
  have hgt := @Respaced.token [] [] "gt".toList _ _ (.name "gt".toList) .nil (by decide)
    (by decide) htwo
  have hsearch := @Respaced.search [] [' '] [] [' '] [] [' ', ' '] "a or b".toList [] [' '] _ _
    .closeParen hgap hgap ⟨rfl, rfl, nofun⟩ (by decide) hgap (by decide) hgt
  have hopen := @Respaced.token [] [] ['('] _ _ (.symbol .openParen) .nil (by decide) nofun hsearch
  have hcount := @Respaced.token [] [] "$count".toList _ _ (.name "$count".toList) .nil
    (by decide) (by decide) hopen
  have hslash := @Respaced.token [] [' '] ['/'] _ _ (.symbol .slash) hgap (by decide) nofun hcount
  have hitems := @Respaced.token [] [] "Items".toList _ _ (.name "Items".toList) .nil
    (by decide) (by decide) hslash
  have hrespaced : Respaced "Items/$count($search=a or b)gt 2".toList
      "Items /$count( $search =  a or b )gt 2 ".toList := by
    refine Eq.mp (congrArg₂ Respaced ?_ ?_) hitems
    · decide
    · decide
  have hparse : Expression.parse "Items/$count($search=a or b)gt 2".toList 3 = .ok
      (.binary .gt (.subquery ⟨none, ["Items".toList]⟩
        [.mk .search (.search "a or b".toList)]) (.literal (.integer 2))) := by
    decide +kernel
  obtain ⟨hspaced, hparenthesized⟩ := Expression.parse_respaced hparse
  have hwhole : parenthesized "Items/$count($search=a or b)gt 2".toList =
      "(Items/$count($search=a or b)gt 2)".toList := by
    decide
  rw [hwhole] at hparenthesized
  exact ⟨_, hparse, hspaced _ hrespaced, hparenthesized⟩

end ODataRequest
