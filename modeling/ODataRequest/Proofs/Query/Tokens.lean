import ODataRequest.Proofs.Literal.NormalForm

/-! From a token to what is read. A name, a literal or a mark that is written out is read as that token
wherever it breaks off before the text behind it. -/

namespace ODataRequest

open Text Unicode

namespace Lexeme

/-- A text at which a name, a number or a quoted text that stands before it ends. -/
def breaks (text : Text) : Bool :=
  text.head?.all fun c => !isNameContinue c && c != '-' && c != quoteMark

def isWord (text : Text) : Bool :=
  text.head?.any isNameStart && text.tail.all isNameContinue

def isName (word : Text) : Bool :=
  isWord word && wordToken word = .name word

/-- The text of a token breaks off before another text: it is read as the token there. -/
structure BreaksOff (word rest : Text) : Prop where
  continues : quoteMark ∉ word → continuesName rest = false
  /-- A quote behind it neither doubles its own quote nor makes it the type of an enumeration. -/
  quote : quoteMark ∈ word ∨ isWord word = true ∧ '.' ∈ word → rest.head? ≠ some quoteMark
  guid : isGuid word = false → startsWithGuid (word ++ rest) = false

variable {word rest text : Text} {first : Char}

theorem isWord_cons (h : isWord word = true) :
    ∃ c others, word = c :: others ∧ isNameStart c = true ∧ others.all isNameContinue = true := by
  rw [isWord, Bool.and_eq_true] at h
  obtain ⟨hhead, htail⟩ := h
  cases word with
  | nil => simp at hhead
  | cons c others => exact ⟨c, others, rfl, by simpa using hhead, htail⟩

theorem isWord_of_isName (h : isName word = true) : isWord word = true := by
  rw [isName, Bool.and_eq_true] at h
  exact h.1

theorem wordToken_of_isName (h : isName word = true) : wordToken word = .name word := by
  rw [isName, Bool.and_eq_true, decide_eq_true_eq] at h
  exact h.2

theorem breaks_head (h : breaks rest = true) {c : Char} {others : Text} (hrest : rest = c :: others) :
    isNameContinue c = false ∧ c ≠ '-' ∧ c ≠ quoteMark := by
  rw [hrest] at h
  simpa [breaks, and_assoc] using h

theorem continuesName_of_breaks (h : breaks rest = true) : continuesName rest = false := by
  cases rest with
  | nil => rfl
  | cons c rest => exact (breaks_head h rfl).1

theorem head?_ne_quote_of_breaks (h : breaks rest = true) : rest.head? ≠ some quoteMark := by
  intro hhead
  obtain ⟨others, rfl⟩ := List.head?_eq_some_iff.mp hhead
  exact (breaks_head h rfl).2.2 rfl

theorem BreaksOff.of_breaks (h : breaks rest = true)
    (hguid : isGuid word = false → startsWithGuid (word ++ rest) = false) : BreaksOff word rest :=
  ⟨fun _ => continuesName_of_breaks h, fun _ => head?_ne_quote_of_breaks h, hguid⟩

theorem not_mem_of_isWord (h : isWord word = true) : quoteMark ∉ word ∧ '-' ∉ word := by
  obtain ⟨c, others, rfl, hc, hothers⟩ := isWord_cons h
  rw [List.all_eq_true] at hothers
  rw [List.mem_cons, List.mem_cons, not_or, not_or]
  refine ⟨⟨(ne_of_isNameStart hc).symm, fun hmem => ?_⟩, (ne_of_isNameStart hc).symm, fun hmem => ?_⟩
  · exact absurd (hothers _ hmem) (by decide)
  · exact absurd (hothers _ hmem) (by decide)

theorem count_hyphen_of_isWord (h : isWord word = true) : word.count '-' = 0 :=
  List.count_eq_zero.mpr (not_mem_of_isWord h).2

theorem not_guid_of_isWord (h : isWord word = true) : isGuid word = false := by
  rw [Bool.eq_false_iff]
  intro hguid
  have hcount := count_hyphen_of_isGuid hguid
  rw [count_hyphen_of_isWord h] at hcount
  cases hcount

theorem not_mem_of_isGuid (h : isGuid text = true) : quoteMark ∉ text := by
  intro hmem
  rcases mem_of_isGuid h hmem with hc | hc <;> exact absurd hc (by decide)

theorem not_guid_of_mem (h : quoteMark ∈ text) : isGuid text = false := by
  rw [Bool.eq_false_iff]
  intro hguid
  exact not_mem_of_isGuid hguid h

theorem not_mem_of_written (h : Number.Written text) : quoteMark ∉ text := by
  intro hmem
  rcases Number.mem_of_written h hmem with hc | hc | hc | hc | hc | hc <;> exact absurd hc (by decide)

theorem next?_blanks {blanks : Text} (h : blanks.all isWhiteSpace = true) (rest : Text) :
    next? (blanks ++ rest) = next? rest := by
  rw [next?, next?, trimStart_of_blanks h]

theorem next?_of_blank (h : text.all isWhiteSpace = true) : next? text = .ok none := by
  have hnext := next?_blanks h []
  rwa [List.append_nil] at hnext

theorem next?_space (rest : Text) : next? (' ' :: rest) = next? rest :=
  next?_blanks (by decide : [' '].all isWhiteSpace = true) rest

theorem next?_cons (h : isWhiteSpace first = false) (rest : Text) : next? (first :: rest) =
    (scan first rest).map fun (token, after) => some ⟨token, first :: rest, after⟩ := by
  rw [next?, trimStart_of_not_blank (by simpa using h)]

theorem not_blank_of_symbol (symbol : Symbol) : isWhiteSpace symbol.char = false := by
  cases symbol <;> decide

/-- A mark of punctuation is read as its symbol. -/
theorem next?_symbol (symbol : Symbol) (rest : Text) (h : symbol ≠ .minus := by decide) :
    next? (symbol.char :: rest) = .ok (some ⟨.symbol symbol, symbol.char :: rest, rest⟩) := by
  rw [next?_cons (not_blank_of_symbol symbol), scan, Symbol.ofChar?_char h]
  rfl

theorem startsWithGuid_of_isGuid (h : isGuid text = true) (hrest : continuesName rest = false) :
    startsWithGuid (text ++ rest) = true := by
  rw [startsWithGuid, ← length_of_isGuid h, List.take_left, List.drop_left, h, hrest]
  rfl

theorem isGuid_of_startsWithGuid (h : startsWithGuid rest = true) :
    ∃ guid after, rest = guid ++ after ∧ isGuid guid = true ∧ continuesName after = false := by
  rw [startsWithGuid, Bool.and_eq_true, Bool.not_eq_true'] at h
  exact ⟨_, _, (List.take_append_drop Guid.length rest).symm, h.1, h.2⟩

/-- A text that has too few hyphens for an identifier before it breaks off. -/
theorem startsWithGuid_append (h : text.count '-' < 4)
    (hrest : ∀ c, rest.head? = some c → isHexDigit c = false ∧ c ≠ '-') :
    startsWithGuid (text ++ rest) = false := by
  rw [startsWithGuid, Bool.and_eq_false_iff]
  left
  rw [Bool.eq_false_iff]
  intro hguid
  have hcount := count_hyphen_of_isGuid hguid
  rw [List.take_append, List.count_append] at hcount
  have hprefix : (text.take Guid.length).count '-' ≤ text.count '-' :=
    (List.take_sublist _ text).count_le '-'
  cases htake : rest.take (Guid.length - text.length) with
  | nil =>
      rw [htake, List.count_nil] at hcount
      omega
  | cons c others =>
      have hmem : c ∈ (text ++ rest).take Guid.length := by
        rw [List.take_append, htake]
        exact List.mem_append_right _ List.mem_cons_self
      have hhead : rest.head? = some c := by
        cases rest with
        | nil => simp at htake
        | cons d rest =>
            cases hk : Guid.length - text.length with
            | zero => simp [hk] at htake
            | succ k =>
                rw [hk, List.take_succ_cons] at htake
                rw [List.head?_cons, (List.cons.inj htake).1]
      obtain ⟨hhex, hhyphen⟩ := hrest c hhead
      rcases mem_of_isGuid hguid hmem with hc | hc
      · rw [hhex] at hc
        cases hc
      · exact hhyphen hc

theorem head?_of_breaks (h : breaks rest = true) (c : Char) (hc : rest.head? = some c) :
    isHexDigit c = false ∧ c ≠ '-' := by
  obtain ⟨others, rfl⟩ := List.head?_eq_some_iff.mp hc
  obtain ⟨hname, hhyphen, -⟩ := breaks_head h rfl
  refine ⟨?_, hhyphen⟩
  rw [Bool.eq_false_iff]
  intro hhex
  rw [isNameContinue_of_isHexDigit hhex] at hname
  cases hname

theorem startsWithGuid_cons (h : isHexDigit first = false) (rest : Text) :
    startsWithGuid (first :: rest) = false := by
  rw [startsWithGuid, Bool.and_eq_false_iff]
  left
  rw [Bool.eq_false_iff]
  intro hguid
  obtain ⟨c, others, htake, hc⟩ := head_of_isGuid hguid
  rw [Guid.length, List.take_succ_cons] at htake
  rw [← (List.cons.inj htake).1, h] at hc
  cases hc

theorem startsWithGuid_of_minus (rest : Text) : startsWithGuid ('-' :: rest) = false :=
  startsWithGuid_cons (by decide) rest

theorem BreaksOff.of_isWord (h : isWord word = true) (hrest : breaks rest = true) :
    BreaksOff word rest := by
  refine .of_breaks hrest fun _ => startsWithGuid_append ?_ (head?_of_breaks hrest)
  rw [count_hyphen_of_isWord h]
  decide

theorem BreaksOff.of_written (h : Number.Written text) (hrest : breaks rest = true) :
    BreaksOff text rest := by
  refine .of_breaks hrest fun _ => startsWithGuid_append ?_ (head?_of_breaks hrest)
  have := Number.count_hyphen_of_written h
  omega

theorem scan_word (h : isNameStart first = true) (hguid : startsWithGuid (first :: rest) = false) :
    scan first rest = scanWord first rest := by
  have hquote : first ≠ quoteMark := ne_of_isNameStart h
  have hminus : first ≠ '-' := ne_of_isNameStart h
  rw [scan, ofChar?_of_isNameStart h]
  dsimp only
  rw [if_neg hquote, hguid, if_neg Bool.false_ne_true, if_neg hminus, not_digit_of_isNameStart h,
    if_neg Bool.false_ne_true, if_pos h]

theorem scanWord_append {others : Text} (hothers : others.all isNameContinue = true)
    (hcontinues : continuesName rest = false)
    (hquote : '.' ∈ first :: others → rest.head? ≠ some quoteMark) :
    scanWord first (others ++ rest) = .ok (wordToken (first :: others), rest) := by
  have hhead : rest.head?.any isNameContinue = false := hcontinues
  have hplain : ¬((first :: others).contains '.' && decide (rest.head? = some quoteMark)) = true := by
    rw [Bool.and_eq_true, decide_eq_true_eq, List.contains_iff_mem]
    exact fun hmember => hquote hmember.1 hmember.2
  simp only [scanWord, takeWhile_run hothers hhead, dropWhile_run hothers hhead]
  rw [if_neg hplain]

/-- A word that breaks off is read as its token. -/
theorem next?_word (word : Text) (h : isWord word = true) (hrest : BreaksOff word rest) :
    next? (word ++ rest) = .ok (some ⟨wordToken word, word ++ rest, rest⟩) := by
  have hguid := hrest.guid (not_guid_of_isWord h)
  have hcontinues := hrest.continues (not_mem_of_isWord h).1
  have hquote : '.' ∈ word → rest.head? ≠ some quoteMark := fun hpoint => hrest.quote (Or.inr ⟨h, hpoint⟩)
  obtain ⟨c, others, rfl, hc, hothers⟩ := isWord_cons h
  rw [List.cons_append] at hguid
  rw [List.cons_append, next?_cons (not_blank_of_isNameStart hc), scan_word hc hguid,
    scanWord_append hothers hcontinues hquote]
  rfl

theorem next?_isName (h : isName word = true) (hrest : BreaksOff word rest) :
    next? (word ++ rest) = .ok (some ⟨.name word, word ++ rest, rest⟩) := by
  rw [next?_word word (isWord_of_isName h) hrest, wordToken_of_isName h]

theorem next?_name (h : isName word = true) (hrest : breaks rest = true) :
    next? (word ++ rest) = .ok (some ⟨.name word, word ++ rest, rest⟩) :=
  next?_isName h (.of_isWord (isWord_of_isName h) hrest)

/-- A minus sign before anything but a digit is a mark of its own. -/
theorem next?_minus (h : rest.head?.any Char.isDigit = false) :
    next? ('-' :: rest) = .ok (some ⟨.symbol .minus, '-' :: rest, rest⟩) := by
  have hguid : startsWithGuid ('-' :: rest) = false := startsWithGuid_of_minus rest
  have hsymbol : Symbol.ofChar? '-' = none := rfl
  rw [next?_cons (by decide), scan, hsymbol]
  dsimp only
  rw [if_neg (by decide), hguid, if_neg Bool.false_ne_true, if_pos rfl, h,
    if_neg Bool.false_ne_true]
  rfl

theorem literalToken_of_ofText? {value : Literal} (h : Literal.ofText? text = some value) :
    literalToken text = .ok (.literal value) := by
  rw [literalToken, Literal.parse, h]

/-- A written number that breaks off is read as the number. -/
theorem next?_written (h : Number.Written text) (hrest : BreaksOff text rest) :
    next? (text ++ rest) = .ok (some ⟨.literal (.ofNumber text), text ++ rest, rest⟩) := by
  have hguid := hrest.guid (Number.not_guid_of_written h)
  have hcontinues := hrest.continues (not_mem_of_written h)
  have hscan : scanNumber (text ++ rest) = .ok (.literal (.ofNumber text), rest) := by
    rw [scanNumber, Number.spanNumber_append h hcontinues]
    dsimp only
    rw [hcontinues, if_neg Bool.false_ne_true,
      literalToken_of_ofText? (Literal.ofText?_number h)]
    rfl
  obtain ⟨hdigit, c, others, rfl, hc⟩ := Number.head_of_written h
  rw [List.cons_append] at hguid hscan ⊢
  rcases hc with hc | rfl
  · have hname := isNameContinue_of_isDigit hc
    rw [next?_cons (not_blank_of_isNameContinue hname), scan, ofChar?_of_isNameContinue hname]
    dsimp only
    rw [if_neg (ne_of_isNameContinue hname), hguid, if_neg Bool.false_ne_true,
      if_neg (Number.ne_of_isDigit hc), if_pos hc, hscan]
    rfl
  · have hhead : (others ++ rest).head?.any Char.isDigit = true := by
      cases others with
      | nil => cases hdigit
      | cons d others => exact hdigit
    have hsymbol : Symbol.ofChar? '-' = none := rfl
    rw [next?_cons (by decide), scan, hsymbol]
    dsimp only
    rw [if_neg (by decide), hguid, if_neg Bool.false_ne_true, if_pos rfl, hhead, if_pos rfl, hscan]
    rfl

theorem next?_number (h : Number.Written text) (hrest : breaks rest = true) :
    next? (text ++ rest) = .ok (some ⟨.literal (.ofNumber text), text ++ rest, rest⟩) :=
  next?_written h (.of_written h hrest)

/-- An identifier that breaks off is read as the identifier in lower case. -/
theorem next?_guid (h : isGuid text = true) (hrest : BreaksOff text rest) :
    next? (text ++ rest) =
      .ok (some ⟨.literal (.guid (text.map Char.toLower)), text ++ rest, rest⟩) := by
  have htake : (text ++ rest).take Guid.length = text := by
    rw [← length_of_isGuid h, List.take_left]
  have hdrop : (text ++ rest).drop Guid.length = rest := by
    rw [← length_of_isGuid h, List.drop_left]
  have hguid := startsWithGuid_of_isGuid h (hrest.continues (not_mem_of_isGuid h))
  obtain ⟨c, others, rfl, hc⟩ := head_of_isGuid h
  have hname := isNameContinue_of_isHexDigit hc
  rw [List.cons_append] at htake hdrop hguid ⊢
  rw [next?_cons (not_blank_of_isNameContinue hname), scan, ofChar?_of_isNameContinue hname]
  dsimp only
  rw [if_neg (ne_of_isNameContinue hname), hguid, if_pos rfl, htake, hdrop]
  rfl

theorem spanQuoted?_append (value : Text) (hrest : rest.head? ≠ some quoteMark) :
    spanQuoted? (doubleQuotes value ++ quoteMark :: rest) =
      some (doubleQuotes value ++ [quoteMark], rest) := by
  induction value with
  | nil =>
      rw [doubleQuotes, List.nil_append, List.nil_append, spanQuoted?]
      intro others heq
      exact hrest (by rw [heq]; rfl)
  | cons c value ih =>
      by_cases hc : c = quoteMark
      · rw [doubleQuotes, if_pos hc, hc, List.cons_append, List.cons_append, spanQuoted?, ih]
        rfl
      · rw [doubleQuotes, if_neg hc, List.cons_append, spanQuoted?, ih]
        · rfl
        · intro others hquote
          exact absurd hquote hc
        · intro hquote
          exact absurd hquote hc

theorem scanQuoted_append {typeName value : Text} {literal : Literal}
    (h : Literal.ofText? (typeName ++ quoted value) = some literal)
    (hquote : rest.head? ≠ some quoteMark) :
    scanQuoted typeName (quoted value ++ rest) = .ok (.literal literal, rest) := by
  have hspan := spanQuoted?_append value hquote
  rw [quoted, List.cons_append] at h
  rw [scanQuoted, quoted, List.cons_append, List.cons_append, List.tail_cons, List.append_assoc,
    List.singleton_append, hspan]
  dsimp only
  rw [literalToken_of_ofText? h]
  rfl

theorem next?_quoted (value : Text) (hrest : BreaksOff (quoted value) rest) :
    next? (quoted value ++ rest) =
      .ok (some ⟨.literal (.string value), quoted value ++ rest, rest⟩) := by
  have hvalue : Literal.ofText? ([] ++ quoted value) = some (.string value) :=
    Literal.ofText?_quoted value
  have hscan := scanQuoted_append hvalue (hrest.quote (Or.inl List.mem_cons_self))
  have hsymbol : Symbol.ofChar? quoteMark = none := rfl
  rw [quoted, List.cons_append, List.cons_append] at hscan ⊢
  rw [next?_cons (by decide), scan, hsymbol]
  dsimp only
  rw [if_pos rfl, hscan]
  rfl

theorem next?_enumeration {typeName : Text} (h : isQualifiedName typeName = true) (value : Text)
    (hrest : BreaksOff (typeName ++ quoted value) rest) : next? (typeName ++ quoted value ++ rest) =
      .ok (some ⟨.literal (.enumeration typeName value), typeName ++ quoted value ++ rest, rest⟩) := by
  have hall : ∀ {c : Char}, c ∈ typeName → isNameContinue c = true := Literal.mem_of_isQualifiedName h
  have hscan := scanQuoted_append (Literal.ofText?_enumeration h value)
    (hrest.quote (Or.inl (List.mem_append_right typeName List.mem_cons_self)))
  have hguid := hrest.guid (not_guid_of_mem (List.mem_append_right typeName List.mem_cons_self))
  rw [List.append_assoc] at hguid
  have hpoint : typeName.contains '.' = true := by
    rw [isQualifiedName, Bool.and_eq_true] at h
    exact h.1
  obtain ⟨c, others, rfl, hc⟩ := Literal.head_of_isQualifiedName h
  have hstart := isNameStart_of_isStart hc
  have hothers : others.all isNameContinue = true := by
    rw [List.all_eq_true]
    exact fun d hd => hall (List.mem_cons_of_mem c hd)
  have hquote : (quoted value ++ rest).head?.any isNameContinue = false := by
    rw [quoted, List.cons_append, List.cons_append, List.head?_cons, Option.any_some]
    decide
  have hword : scanWord c (others ++ (quoted value ++ rest)) =
      scanQuoted (c :: others) (quoted value ++ rest) := by
    simp only [scanWord, takeWhile_run hothers hquote, dropWhile_run hothers hquote, hpoint]
    rfl
  rw [List.append_assoc, List.cons_append] at *
  rw [next?_cons (not_blank_of_isNameStart hstart), scan_word hstart hguid, hword, hscan]
  rfl

/-- A text of a literal is read as the literal where it breaks off. -/
theorem next?_isLiteral {value : Literal} (h : value.WrittenAs text) (hrest : BreaksOff text rest) :
    next? (text ++ rest) = .ok (some ⟨.literal value, text ++ rest, rest⟩) := by
  cases h with
  | null => exact next?_word "null".toList (by decide) hrest
  | yes => exact next?_word "true".toList (by decide) hrest
  | no => exact next?_word "false".toList (by decide) hrest
  | number h => exact next?_written h hrest
  | string inner => exact next?_quoted inner hrest
  | guid h => exact next?_guid h hrest
  | enumeration h inner => exact next?_enumeration h inner hrest

theorem BreaksOff.of_writtenAs {value : Literal} (h : value.WrittenAs text) (hrest : breaks rest = true) :
    BreaksOff text rest := by
  cases h with
  | null => exact .of_isWord (by decide) hrest
  | yes => exact .of_isWord (by decide) hrest
  | no => exact .of_isWord (by decide) hrest
  | number h => exact .of_written h hrest
  | string inner => exact .of_breaks hrest fun _ => startsWithGuid_cons (by decide) _
  | guid h =>
      refine .of_breaks hrest fun hnot => ?_
      rw [h] at hnot
      cases hnot
  | @enumeration typeName h inner =>
      refine .of_breaks hrest fun _ => ?_
      rw [List.append_assoc]
      refine startsWithGuid_append ?_ ?_
      · have hcount : typeName.count '-' = 0 := by
          rw [List.count_eq_zero]
          intro hmem
          exact absurd (Literal.mem_of_isQualifiedName h hmem) (by decide)
        omega
      · rintro c hc
        rw [← Option.some.inj hc]
        decide

theorem next?_writtenAs {value : Literal} (h : value.WrittenAs text) (hrest : breaks rest = true) :
    next? (text ++ rest) = .ok (some ⟨.literal value, text ++ rest, rest⟩) :=
  next?_isLiteral h (.of_writtenAs h hrest)

theorem next?_literal {value : Literal} (h : value.WellFormed) (hrest : breaks rest = true) :
    next? (value.render ++ rest) = .ok (some ⟨.literal value, value.render ++ rest, rest⟩) :=
  next?_writtenAs (Literal.writtenAs_render h) hrest

end Lexeme

end ODataRequest
