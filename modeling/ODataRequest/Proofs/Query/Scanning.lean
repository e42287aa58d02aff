import ODataRequest.Proofs.Query.Tokens
import ODataRequest.Proofs.Text.Nesting

/-! From what is read to a token. What is read as a token is blanks and a text that stands as the
token before the rest, so that reading depends on the text of the token and on where it breaks off.
A scanner that keeps a depth passes over every such text but a parenthesis. -/

namespace ODataRequest

open Text Unicode Nesting

/-- Except for its errors, a computation that is mapped runs as it is. -/
theorem map_eq_ok {ε α β : Type} {result : Except ε α} {f : α → β} {value : β}
    (h : result.map f = .ok value) : ∃ inside, result = .ok inside ∧ f inside = value := by
  cases result with
  | error e => cases h
  | ok inside => exact ⟨inside, rfl, Except.ok.inj h⟩

/-- The characters that separate the options of a list. -/
def separates (c : Char) : Bool :=
  c = ';' || c = '&'

namespace Lexeme

/-- The texts that a token is written as. -/
inductive Spells : Text → Token → Prop where
  | name {word : Text} (h : isName word = true) : Spells word (.name word)
  | literal {text : Text} {value : Literal} (h : value.WellFormed) (hnonempty : text ≠ [])
      (hclosed : Closed separates text) : Spells text (.literal value)
  | symbol (symbol : Symbol) : Spells [symbol.char] (.symbol symbol)

/-- A text stands as a token before another text. -/
inductive Stands (word : Text) : Token → (rest : Text) → Prop where
  | literal {value : Literal} {rest : Text} (h : value.WrittenAs word) (hrest : BreaksOff word rest) :
      Stands word (.literal value) rest
  | name {rest : Text} (h : isName word = true) (hrest : BreaksOff word rest) : Stands word (.name word) rest
  | minus {rest : Text} (h : word = ['-']) (hrest : rest.head?.any Char.isDigit = false) :
      Stands word (.symbol .minus) rest
  | symbol {symbol : Symbol} {rest : Text} (h : word = [symbol.char]) (hsymbol : symbol ≠ .minus) :
      Stands word (.symbol symbol) rest

variable {word rest text : Text} {token : Token} {first : Char}

/-- A text is read as the token that it stands as. -/
theorem next?_of_stands (h : Stands word token rest) :
    next? (word ++ rest) = .ok (some ⟨token, word ++ rest, rest⟩) := by
  cases h with
  | literal h hrest => exact next?_isLiteral h hrest
  | name h hrest => exact next?_isName h hrest
  | minus h hrest =>
      rw [h]
      exact next?_minus hrest
  | symbol h hsymbol =>
      rw [h]
      exact next?_symbol _ rest hsymbol

/-! ### Texts that a scanner passes over -/

theorem isPlain_of_isNameContinue {c : Char} (h : isNameContinue c = true) :
    isPlain separates c = true := by
  have hquote : c ≠ quoteMark := ne_of_isNameContinue h
  have hopen : c ≠ '(' := ne_of_isNameContinue h
  have hclose : c ≠ ')' := ne_of_isNameContinue h
  have hsemicolon : c ≠ ';' := ne_of_isNameContinue h
  have hampersand : c ≠ '&' := ne_of_isNameContinue h
  simp [isPlain, separates, hquote, hopen, hclose, hsemicolon, hampersand]

theorem isPlain_of_isNameStart {c : Char} (h : isNameStart c = true) :
    isPlain separates c = true := by
  have hquote : c ≠ quoteMark := ne_of_isNameStart h
  have hopen : c ≠ '(' := ne_of_isNameStart h
  have hclose : c ≠ ')' := ne_of_isNameStart h
  have hsemicolon : c ≠ ';' := ne_of_isNameStart h
  have hampersand : c ≠ '&' := ne_of_isNameStart h
  simp [isPlain, separates, hquote, hopen, hclose, hsemicolon, hampersand]

theorem isPlain_of_isWhiteSpace {c : Char} (h : isWhiteSpace c = true) :
    isPlain separates c = true := by
  have hmark : ∀ mark, isWhiteSpace mark = false → c ≠ mark := by
    rintro mark hmark rfl
    rw [h] at hmark
    cases hmark
  have hquote := hmark quoteMark (by decide)
  have hopen := hmark '(' (by decide)
  have hclose := hmark ')' (by decide)
  have hsemicolon := hmark ';' (by decide)
  have hampersand := hmark '&' (by decide)
  simp [isPlain, separates, hquote, hopen, hclose, hsemicolon, hampersand]

theorem isWord_closed (h : isWord word = true) : Closed separates word := by
  obtain ⟨c, others, rfl, hc, hothers⟩ := isWord_cons h
  apply Closed.plain
  rw [List.all_cons, isPlain_of_isNameStart hc, Bool.true_and, List.all_eq_true]
  exact fun d hd => isPlain_of_isNameContinue (List.all_eq_true.mp hothers d hd)

theorem written_closed (h : Number.Written text) : Closed separates text := by
  apply Closed.plain
  rw [List.all_eq_true]
  intro c hc
  rcases Number.mem_of_written h hc with hdigit | rfl | rfl | rfl | rfl | rfl
  · exact isPlain_of_isNameContinue (isNameContinue_of_isDigit hdigit)
  all_goals decide

theorem guid_closed (h : isGuid text = true) : Closed separates text := by
  apply Closed.plain
  rw [List.all_eq_true]
  intro c hc
  rcases mem_of_isGuid h hc with hhex | rfl
  · exact isPlain_of_isNameContinue (isNameContinue_of_isHexDigit hhex)
  · decide

theorem blank_closed (h : text.all isWhiteSpace = true) : Closed separates text := by
  apply Closed.plain
  rw [List.all_eq_true] at h ⊢
  exact fun c hc => isPlain_of_isWhiteSpace (h c hc)

theorem Spells.closed {token : Token} (h : Spells text token) :
    Closed separates text ∨ ∃ symbol, token = .symbol symbol := by
  cases h with
  | name h => exact Or.inl (isWord_closed (isWord_of_isName h))
  | literal _ _ hclosed => exact Or.inl hclosed
  | symbol symbol => exact Or.inr ⟨symbol, rfl⟩

theorem ne_nil_of_isWord (h : isWord word = true) : word ≠ [] := by
  obtain ⟨c, others, rfl, -, -⟩ := isWord_cons h
  exact List.cons_ne_nil c others

/-- A text of a literal spells the literal. -/
theorem spells_of_writtenAs {value : Literal} (h : value.WrittenAs text) :
    Spells text (.literal value) := by
  have hword : ∀ {word : Text}, isWord word = true → word ≠ [] ∧ Closed separates word :=
    fun h => ⟨ne_nil_of_isWord h, isWord_closed h⟩
  have htext : text ≠ [] ∧ Closed separates text := by
    cases h with
    | null => exact hword (by decide)
    | yes => exact hword (by decide)
    | no => exact hword (by decide)
    | number h =>
        obtain ⟨-, c, others, hcons, -⟩ := Number.head_of_written h
        exact ⟨hcons ▸ List.cons_ne_nil c others, written_closed h⟩
    | string inner => exact ⟨List.cons_ne_nil _ _, Closed.quoted inner⟩
    | guid h =>
        obtain ⟨c, others, hcons, -⟩ := head_of_isGuid h
        exact ⟨hcons ▸ List.cons_ne_nil c others, guid_closed h⟩
    | @enumeration typeName h inner =>
        refine ⟨List.append_ne_nil_of_right_ne_nil typeName (List.cons_ne_nil _ _),
          (Closed.plain (List.all_eq_true.mpr fun c hc => ?_)).append (Closed.quoted inner)⟩
        exact isPlain_of_isNameContinue (Literal.mem_of_isQualifiedName h hc)
  exact .literal h.wellFormed htext.1 htext.2

/-! ### From what is read to a token -/

theorem eq_of_spanQuoted? {content : Text} (h : spanQuoted? text = some (content, rest)) :
    text = content ++ rest := by
  fun_induction spanQuoted? text generalizing content with
  | case1 => cases h
  | case2 others ih =>
      obtain ⟨⟨inner, after⟩, hinner, heq⟩ := Option.map_eq_some_iff.mp h
      cases heq
      rw [ih hinner]
      rfl
  | case3 others _ =>
      cases h
      rfl
  | case4 c others _ hc ih =>
      obtain ⟨⟨inner, after⟩, hinner, heq⟩ := Option.map_eq_some_iff.mp h
      cases heq
      rw [ih hinner]
      rfl

/-- What follows the closing quote does not double it. -/
theorem head?_of_spanQuoted? {content : Text} (h : spanQuoted? text = some (content, rest)) :
    rest.head? ≠ some quoteMark := by
  fun_induction spanQuoted? text generalizing content with
  | case1 => cases h
  | case2 others ih =>
      obtain ⟨⟨inner, after⟩, hinner, heq⟩ := Option.map_eq_some_iff.mp h
      cases heq
      exact ih hinner
  | case3 others hothers =>
      cases h
      intro hhead
      obtain ⟨after, rfl⟩ := List.head?_eq_some_iff.mp hhead
      exact hothers after rfl
  | case4 c others _ hc ih =>
      obtain ⟨⟨inner, after⟩, hinner, heq⟩ := Option.map_eq_some_iff.mp h
      cases heq
      exact ih hinner

theorem writtenAs_of_literalToken (h : literalToken text = .ok token) :
    ∃ value, token = .literal value ∧ value.WrittenAs text := by
  rw [literalToken] at h
  cases hparse : Literal.parse text with
  | error e =>
      rw [hparse] at h
      cases h
  | ok value =>
      rw [hparse] at h
      cases h
      exact ⟨value, rfl, Literal.parse_eq_ok_iff.mp hparse⟩

theorem stands_of_scanQuoted {typeName start : Text}
    (h : scanQuoted typeName start = .ok (token, rest)) (hstart : start.head? = some quoteMark)
    (hguid : startsWithGuid (typeName ++ start) = false) :
    ∃ content, start = content ++ rest ∧ Stands (typeName ++ content) token rest := by
  obtain ⟨others, rfl⟩ := List.head?_eq_some_iff.mp hstart
  rw [scanQuoted, List.tail_cons] at h
  cases hspan : spanQuoted? others with
  | none =>
      rw [hspan] at h
      cases h
  | some parts =>
      obtain ⟨content, after⟩ := parts
      rw [hspan] at h
      obtain ⟨found, hfound, heq⟩ := map_eq_ok h
      cases heq
      obtain ⟨value, rfl, hwritten⟩ := writtenAs_of_literalToken hfound
      have hquote : quoteMark ∈ typeName ++ quoteMark :: content :=
        List.mem_append_right typeName List.mem_cons_self
      have hothers := eq_of_spanQuoted? hspan
      refine ⟨quoteMark :: content, congrArg (quoteMark :: ·) hothers, .literal hwritten ⟨?_, ?_, ?_⟩⟩
      · exact fun hnot => absurd hquote hnot
      · exact fun _ => head?_of_spanQuoted? hspan
      · intro _
        rwa [List.append_assoc, List.cons_append, ← hothers]

theorem not_isWord_of_written (h : Number.Written text) : isWord text = false := by
  obtain ⟨-, c, others, rfl, hc⟩ := Number.head_of_written h
  rw [isWord, Bool.and_eq_false_iff, List.head?_cons, Option.any_some]
  left
  rw [Bool.eq_false_iff]
  intro hstart
  rcases hc with hdigit | rfl
  · rw [not_digit_of_isNameStart hstart] at hdigit
    cases hdigit
  · exact absurd hstart (by decide)

theorem stands_of_scanNumber {start : Text} (h : scanNumber start = .ok (token, rest))
    (hdigit : (Number.unsigned start).head?.any Char.isDigit = true)
    (hguid : startsWithGuid start = false) :
    ∃ number, start = number ++ rest ∧ Stands number token rest := by
  obtain ⟨hnumber, hstart⟩ := Number.spanNumber_spec hdigit
  rw [scanNumber] at h
  dsimp only at h
  split at h
  · cases h
  · rename_i hcontinues
    obtain ⟨found, hfound, heq⟩ := map_eq_ok h
    cases heq
    obtain ⟨value, rfl, hwritten⟩ := writtenAs_of_literalToken hfound
    refine ⟨_, hstart, .literal hwritten ⟨fun _ => by simpa using hcontinues, ?_, ?_⟩⟩
    · rintro (hquote | ⟨hword, -⟩)
      · exact absurd hquote (not_mem_of_written hnumber)
      · rw [not_isWord_of_written hnumber] at hword
        cases hword
    · intro _
      rwa [← hstart]

theorem wordToken_cases (h : isWord word = true) :
    (∃ value, wordToken word = .literal value ∧ value.WrittenAs word) ∨
      wordToken word = .name word ∧ isName word = true := by
  by_cases hnull : word = "null".toList
  · exact Or.inl ⟨.null, if_pos hnull, hnull ▸ .null⟩
  by_cases htrue : word = "true".toList
  · exact Or.inl ⟨.boolean true, by rw [wordToken, if_neg hnull, if_pos htrue], htrue ▸ .yes⟩
  by_cases hfalse : word = "false".toList
  · exact Or.inl ⟨.boolean false, by rw [wordToken, if_neg hnull, if_neg htrue, if_pos hfalse],
      hfalse ▸ .no⟩
  · have hname : wordToken word = .name word := by
      rw [wordToken, if_neg hnull, if_neg htrue, if_neg hfalse]
    refine Or.inr ⟨hname, ?_⟩
    rw [isName, h, hname]
    exact decide_eq_true rfl

/-- What a word is scanned as: a literal that is written so, or its own name. -/
theorem stands_of_scanWord {others : Text} (h : scanWord first others = .ok (token, rest))
    (hfirst : isNameStart first = true) (hguid : startsWithGuid (first :: others) = false) :
    ∃ word, first :: others = word ++ rest ∧ Stands word token rest := by
  have hword : isWord (first :: others.takeWhile isNameContinue) = true := by
    rw [isWord, List.head?_cons, Option.any_some, hfirst, List.tail_cons, List.all_takeWhile]
    rfl
  have hsplit : first :: others =
      (first :: others.takeWhile isNameContinue) ++ others.dropWhile isNameContinue := by
    rw [List.cons_append, List.takeWhile_append_dropWhile]
  rw [hsplit] at hguid ⊢
  rw [scanWord] at h
  split at h
  · rename_i hquoted
    rw [Bool.and_eq_true, decide_eq_true_eq] at hquoted
    obtain ⟨content, hcontent, hstands⟩ := stands_of_scanQuoted h hquoted.2 hguid
    refine ⟨_, ?_, hstands⟩
    rw [hcontent, List.append_assoc]
  · rename_i hplain
    rw [Bool.and_eq_true, decide_eq_true_eq, List.contains_iff_mem] at hplain
    cases h
    have hrest : BreaksOff (first :: others.takeWhile isNameContinue)
        (others.dropWhile isNameContinue) := by
      refine ⟨fun _ => head?_dropWhile isNameContinue others, ?_, fun _ => hguid⟩
      rintro (hquote | ⟨-, hpoint⟩) hhead
      · exact absurd hquote (not_mem_of_isWord hword).1
      · exact hplain ⟨hpoint, hhead⟩
    refine ⟨_, rfl, ?_⟩
    rcases wordToken_cases hword with ⟨value, htoken, hwritten⟩ | ⟨htoken, hname⟩
    · rw [htoken]
      exact .literal hwritten hrest
    · rw [htoken]
      exact .name hname hrest

/-- An identifier that nothing continues stands as its literal. -/
theorem stands_of_guid (h : startsWithGuid text = true) :
    Stands (text.take Guid.length) (.literal (.guid ((text.take Guid.length).map Char.toLower)))
      (text.drop Guid.length) := by
  rw [startsWithGuid, Bool.and_eq_true, Bool.not_eq_true'] at h
  obtain ⟨hguid, hcontinues⟩ := h
  refine .literal (.guid hguid) ⟨?_, ?_, ?_⟩
  · exact fun _ => hcontinues
  · rintro (hquote | ⟨-, hpoint⟩)
    · exact absurd hquote (not_mem_of_isGuid hguid)
    · rcases mem_of_isGuid hguid hpoint with hc | hc <;> exact absurd hc (by decide)
  · intro hnot
    rw [hguid] at hnot
    cases hnot

/-- What is scanned as a token stands as the token before the rest. -/
theorem stands_of_scan {others : Text} (h : scan first others = .ok (token, rest)) :
    ∃ word, first :: others = word ++ rest ∧ Stands word token rest := by
  rw [scan] at h
  split at h
  · rename_i symbol hsymbol
    cases h
    refine ⟨[first], rfl, .symbol (congrArg (fun c => [c]) (Symbol.char_of_ofChar? hsymbol)) ?_⟩
    rintro rfl
    rw [Symbol.char_of_ofChar? hsymbol] at hsymbol
    cases hsymbol
  split at h
  · rename_i hquote
    rw [hquote] at h ⊢
    exact stands_of_scanQuoted h rfl (startsWithGuid_cons (by decide) others)
  split at h
  · rename_i hguid
    cases h
    exact ⟨_, (List.take_append_drop Guid.length _).symm, stands_of_guid hguid⟩
  rename_i hguid
  rw [Bool.not_eq_true] at hguid
  split at h
  · rename_i hminus
    rw [hminus] at h hguid ⊢
    split at h
    · rename_i hdigit
      exact stands_of_scanNumber h hdigit hguid
    · rename_i hdigit
      cases h
      exact ⟨_, rfl, .minus rfl (by simpa using hdigit)⟩
  rename_i hminus
  split at h
  · rename_i hdigit
    have hunsigned : (Number.unsigned (first :: others)).head?.any Char.isDigit = true := by
      rw [Number.unsigned]
      · exact hdigit
      · intro digits heq
        exact hminus (List.cons.inj heq).1
    exact stands_of_scanNumber h hunsigned hguid
  split at h
  · rename_i hstart
    exact stands_of_scanWord h hstart hguid
  · cases h

/-- What is scanned: a literal that is written so, a name, or a mark. -/
theorem scan_cases {others : Text} (h : scan first others = .ok (token, rest)) :
    ∃ word, first :: others = word ++ rest ∧
      ((∃ value, token = .literal value ∧ value.WrittenAs word) ∨
        (token = .name word ∧ isName word = true) ∨
          ∃ symbol, token = .symbol symbol ∧ word = [symbol.char]) := by
  obtain ⟨word, hword, hstands⟩ := stands_of_scan h
  refine ⟨word, hword, ?_⟩
  cases hstands with
  | literal hwritten _ => exact Or.inl ⟨_, rfl, hwritten⟩
  | name hname _ => exact Or.inr (Or.inl ⟨rfl, hname⟩)
  | minus hword _ => exact Or.inr (Or.inr ⟨.minus, rfl, hword⟩)
  | symbol hword _ => exact Or.inr (Or.inr ⟨_, rfl, hword⟩)

/-- What is read as a lexeme is blanks, then a text that stands as its token, then the rest. -/
theorem stands_of_next? {lexeme : Lexeme} (h : next? text = .ok (some lexeme)) :
    ∃ blanks word, text = blanks ++ (word ++ lexeme.rest) ∧ blanks.all isWhiteSpace = true ∧
      lexeme.start = word ++ lexeme.rest ∧ Stands word lexeme.token lexeme.rest := by
  obtain ⟨blanks, htext, hblanks⟩ := trimStart_decompose text
  rw [next?] at h
  split at h
  · cases h
  · rename_i first others hstart
    obtain ⟨⟨token, after⟩, hscan, heq⟩ := map_eq_ok h
    cases heq
    obtain ⟨word, hword, hstands⟩ := stands_of_scan hscan
    rw [hstart, hword] at htext
    exact ⟨blanks, word, htext, hblanks, hword, hstands⟩

theorem Stands.spells (h : Stands word token rest) : Spells word token := by
  cases h with
  | literal h _ => exact spells_of_writtenAs h
  | name h _ => exact .name h
  | minus h _ =>
      rw [h]
      exact .symbol .minus
  | symbol h _ =>
      rw [h]
      exact .symbol _

/-- What is read as a lexeme is blanks, then a text that spells its token, then the rest. -/
theorem eq_of_next? {lexeme : Lexeme} (h : next? text = .ok (some lexeme)) :
    ∃ blanks word, text = blanks ++ (word ++ lexeme.rest) ∧ blanks.all isWhiteSpace = true ∧
      Spells word lexeme.token := by
  obtain ⟨blanks, word, htext, hblanks, -, hstands⟩ := stands_of_next? h
  exact ⟨blanks, word, htext, hblanks, hstands.spells⟩

theorem Spells.ne_nil {token : Token} (h : Spells word token) : word ≠ [] := by
  cases h with
  | name h => exact ne_nil_of_isWord (isWord_of_isName h)
  | literal _ hnonempty _ => exact hnonempty
  | symbol symbol => exact List.cons_ne_nil _ _

/-- Every lexeme takes something from the text. -/
theorem length_lt_of_next? {lexeme : Lexeme} (h : next? text = .ok (some lexeme)) :
    lexeme.rest.length < text.length := by
  obtain ⟨blanks, word, rfl, -, hspells⟩ := eq_of_next? h
  have := List.length_pos_iff.mpr hspells.ne_nil
  rw [List.length_append, List.length_append]
  omega

theorem all_blank_of_next? (h : next? text = .ok none) : text.all isWhiteSpace = true := by
  rw [next?] at h
  split at h
  · rename_i hnil
    exact all_blank_of_trimStart_eq_nil hnil
  · obtain ⟨_, -, heq⟩ := map_eq_ok h
    cases heq

end Lexeme

end ODataRequest
