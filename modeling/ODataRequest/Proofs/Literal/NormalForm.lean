import ODataRequest.Proofs.Literal.Guids
import ODataRequest.Proofs.Literal.Numbers

/-! The grammar and the normal form of literals. `Literal.WrittenAs` is the grammar: a text is
classified as a literal exactly if it is written as the literal. Every literal that is read satisfies
`Literal.WellFormed`, and one that does is written as its canonical text: no printed form is taken
for another one. -/

namespace ODataRequest

open Text Unicode

namespace Number

/-- A character of a written number. -/
theorem mem_of_written {text : Text} (h : Written text) {c : Char} (hc : c ∈ text) :
    c.isDigit = true ∨ c = '-' ∨ c = '.' ∨ c = 'e' ∨ c = 'E' ∨ c = '+' := by
  have hdigits : ∀ {digits : Text}, isDigits digits = true → c ∈ digits → c.isDigit = true :=
    fun h hmem => List.all_eq_true.mp (isDigits_iff.mp h).2 c hmem
  obtain ⟨hsign, hwhole, hfraction, hexponent⟩ := h
  simp only [List.mem_append] at hc
  rcases hc with ((hc | hc) | hc) | hc
  · rcases hsign with rfl | rfl
    · cases hc
    · exact Or.inr (Or.inl (List.mem_singleton.mp hc))
  · exact Or.inl (hdigits hwhole hc)
  · rcases hfraction with rfl | ⟨digits, rfl, h⟩
    · cases hc
    · rcases List.mem_cons.mp hc with rfl | hc
      · simp
      · exact Or.inl (hdigits h hc)
  · rcases hexponent with rfl | ⟨mark, sign, digits, rfl, hmark, hs, hd⟩
    · cases hc
    · simp only [isExponentMark, Bool.or_eq_true, decide_eq_true_eq] at hmark
      rcases List.mem_cons.mp hc with rfl | hc
      · rcases hmark with rfl | rfl <;> simp
      · rcases List.mem_append.mp hc with hc | hc
        · rcases hs with rfl | rfl | rfl
          · cases hc
          · simp [List.mem_singleton.mp hc]
          · simp [List.mem_singleton.mp hc]
        · exact Or.inl (hdigits hd hc)

/-- A written number holds at most two hyphens: its own sign and that of its exponent. -/
theorem count_hyphen_of_written {text : Text} (h : Written text) : text.count '-' ≤ 2 := by
  have hdigits : ∀ {digits : Text}, isDigits digits = true → digits.count '-' = 0 := by
    intro digits h
    rw [List.count_eq_zero]
    intro hmem
    exact absurd (List.all_eq_true.mp (isDigits_iff.mp h).2 '-' hmem) (by decide)
  obtain ⟨hsign, hwhole, hfraction, hexponent⟩ := h
  rename_i sign whole fraction exponent
  simp only [List.count_append, hdigits hwhole]
  have hs : sign.count '-' ≤ 1 := by
    rcases hsign with rfl | rfl <;> decide
  have hf : fraction.count '-' = 0 := by
    rcases hfraction with rfl | ⟨digits, rfl, h⟩
    · rfl
    · rw [List.count_cons_of_ne (by decide), hdigits h]
  have he : exponent.count '-' ≤ 1 := by
    rcases hexponent with rfl | ⟨mark, sign, digits, rfl, hmark, hs, hd⟩
    · exact Nat.zero_le 1
    · have hne : mark ≠ '-' := by
        rintro rfl
        exact absurd hmark (by decide)
      rw [List.count_cons_of_ne hne, List.count_append, hdigits hd]
      rcases hs with rfl | rfl | rfl <;> decide
  omega

/-- A written number begins with a digit or with a minus sign and a digit. -/
theorem head_of_written {text : Text} (h : Written text) :
    (unsigned text).head?.any Char.isDigit = true ∧
      ∃ c rest, text = c :: rest ∧ (c.isDigit = true ∨ c = '-') := by
  obtain ⟨hsign, hwhole, hfraction, hexponent⟩ := h
  obtain ⟨c, rest, rfl, hc⟩ := isDigits_cons hwhole
  refine ⟨?_, ?_⟩
  · rw [List.append_assoc, List.append_assoc, unsigned_append hsign (by simpa using hc)]
    exact hc
  · rcases hsign with rfl | rfl
    · exact ⟨c, _, rfl, Or.inl hc⟩
    · exact ⟨'-', _, rfl, Or.inr rfl⟩

theorem not_guid_of_written {text : Text} (h : Written text) : isGuid text = false := by
  rw [Bool.eq_false_iff]
  intro hguid
  have := count_hyphen_of_written h
  rw [count_hyphen_of_isGuid hguid] at this
  omega

theorem integerValue_ofInt (value : Int) : integerValue (ofInt value) = value := by
  cases value with
  | ofNat n =>
      have hdigits : isDigits (ofNat n) = true := isDigits_ofNat n
      obtain ⟨c, rest, hcons, hc⟩ := isDigits_cons hdigits
      have hne : c ≠ '-' := ne_of_isDigit hc
      rw [ofInt, integerValue]
      · rw [digitsValue_ofNat]
        rfl
      · intro digits heq
        rw [hcons] at heq
        exact hne (List.cons.inj heq).1
  | negSucc n =>
      rw [ofInt, integerValue, digitsValue_ofNat, Int.negSucc_eq, Int.natCast_add]
      rfl

theorem isInteger_ofInt (value : Int) : isInteger (ofInt value) = true := by
  cases value with
  | ofNat n =>
      have hdigits : isDigits (ofNat n) = true := isDigits_ofNat n
      obtain ⟨c, rest, hcons, hc⟩ := isDigits_cons hdigits
      have hunsigned : unsigned ([] ++ ofNat n) = ofNat n :=
        unsigned_append (Or.inl rfl) (by rw [hcons]; exact hc)
      rw [List.nil_append] at hunsigned
      rw [isInteger, ofInt, hunsigned]
      exact hdigits
  | negSucc n => exact isDigits_ofNat (n + 1)

end Number

namespace Literal

/-- The number of a written text, as an integer where it fits. -/
def ofNumber (text : Text) : Literal :=
  if Number.isInteger text then ofIntegerText text else .decimal text

/-- A literal that its own canonical text denotes. -/
def WellFormed : Literal → Prop
  | .null => True
  | .boolean _ => True
  | .integer value => Number.minInteger ≤ value ∧ value ≤ Number.maxInteger
  | .decimal text => Number.Written text ∧ ofNumber text = .decimal text
  | .string _ => True
  | .guid text => isGuid text = true ∧ text.map Char.toLower = text
  | .enumeration typeName _ => isQualifiedName typeName = true

instance : DecidablePred WellFormed
  | .null => inferInstanceAs (Decidable True)
  | .boolean _ => inferInstanceAs (Decidable True)
  | .integer value =>
    inferInstanceAs (Decidable (Number.minInteger ≤ value ∧ value ≤ Number.maxInteger))
  | .decimal text =>
    decidable_of_iff ((Number.isInteger text = true ∨ Number.isDecimal text = true) ∧
      ofNumber text = .decimal text) (and_congr_left' Number.written_iff.symm)
  | .string _ => inferInstanceAs (Decidable True)
  | .guid text => inferInstanceAs (Decidable (isGuid text = true ∧ text.map Char.toLower = text))
  | .enumeration typeName _ => inferInstanceAs (Decidable (isQualifiedName typeName = true))

/-- The texts that a literal is written as. -/
inductive WrittenAs : Literal → Text → Prop where
  | null : WrittenAs .null "null".toList
  | yes : WrittenAs (.boolean true) "true".toList
  | no : WrittenAs (.boolean false) "false".toList
  | number {text : Text} (h : Number.Written text) : WrittenAs (.ofNumber text) text
  | string (value : Text) : WrittenAs (.string value) (quoted value)
  | guid {text : Text} (h : isGuid text = true) : WrittenAs (.guid (text.map Char.toLower)) text
  | enumeration {typeName : Text} (h : isQualifiedName typeName = true) (value : Text) :
      WrittenAs (.enumeration typeName value) (typeName ++ quoted value)

theorem wellFormed_ofNumber {text : Text} (h : Number.Written text) : (ofNumber text).WellFormed := by
  by_cases hinteger : Number.isInteger text = true
  · have hnumber : ofNumber text = ofIntegerText text := if_pos hinteger
    by_cases hrange : Number.minInteger ≤ Number.integerValue text ∧
        Number.integerValue text ≤ Number.maxInteger
    · have hvalue : ofIntegerText text = .integer (Number.integerValue text) := if_pos hrange
      rw [hnumber, hvalue]
      exact hrange
    · have hvalue : ofIntegerText text = .decimal text := if_neg hrange
      rw [hnumber, hvalue]
      exact ⟨h, hnumber.trans hvalue⟩
  · have hnumber : ofNumber text = .decimal text := if_neg hinteger
    rw [hnumber]
    exact ⟨h, hnumber⟩

theorem isNumeric_ofNumber (text : Text) : (ofNumber text).isNumeric = true := by
  unfold ofNumber ofIntegerText
  split
  · dsimp only
    split <;> rfl
  · rfl

/-- A text that is neither a word of the protocol nor quoted is read by its form. -/
theorem ofText?_of_form {text : Text} (hnull : text ≠ "null".toList) (htrue : text ≠ "true".toList)
    (hfalse : text ≠ "false".toList) (hquote : text.head? ≠ some quoteMark)
    (hguid : isGuid text = false) : ofText? text =
      match cutAt? quoteMark text with
      | some (typeName, quoted) =>
        if isQualifiedName typeName then (closeQuote? quoted).map (.enumeration typeName) else none
      | none =>
        if Number.isInteger text then some (ofIntegerText text)
        else if Number.isDecimal text then some (.decimal text)
        else none := by
  rw [ofText?, if_neg hnull, if_neg htrue, if_neg hfalse, if_neg hquote, hguid]
  rfl

/-- A written number reads as the number. -/
theorem ofText?_number {text : Text} (h : Number.Written text) :
    ofText? text = some (ofNumber text) := by
  obtain ⟨c, rest, hcons, hc⟩ := (Number.head_of_written h).2
  have hword : ∀ {d : Char} {others : Text}, d.isDigit = false → d ≠ '-' → text ≠ d :: others := by
    rintro d others hd hne heq
    rw [hcons] at heq
    obtain ⟨rfl, -⟩ := List.cons.inj heq
    rcases hc with hc | hc
    · rw [hc] at hd
      cases hd
    · exact hne hc
  have hquote : quoteMark ∉ text := by
    intro hmem
    have := Number.mem_of_written h hmem
    revert this
    decide
  have hhead : text.head? ≠ some quoteMark := by
    rw [hcons, List.head?_cons]
    rintro hsome
    exact hquote (hcons ▸ Option.some.inj hsome ▸ List.mem_cons_self)
  rw [ofText?_of_form (hword (by decide) (by decide)) (hword (by decide) (by decide))
    (hword (by decide) (by decide)) hhead (Number.not_guid_of_written h),
    cutAt?_eq_none_iff.mpr hquote]
  dsimp only
  rcases Number.written_iff.mp h with hinteger | hdecimal
  · rw [if_pos hinteger, ofNumber, if_pos hinteger]
  · by_cases hinteger : Number.isInteger text = true
    · rw [if_pos hinteger, ofNumber, if_pos hinteger]
    · rw [if_neg hinteger, if_pos hdecimal, ofNumber, if_neg hinteger]

theorem closeQuote?_doubleQuotes (value : Text) :
    closeQuote? (doubleQuotes value ++ [quoteMark]) = some value := by
  rw [closeQuote?, before?, if_pos List.getLast?_concat, List.dropLast_concat, Option.bind_some]
  exact collapseQuotes?_doubleQuotes value

/-- What follows an opening quote is closed exactly if it is a text with its quotes doubled and one
more quote. -/
theorem closeQuote?_eq_some_iff {text inner : Text} :
    closeQuote? text = some inner ↔ text = doubleQuotes inner ++ [quoteMark] := by
  constructor
  · intro h
    obtain ⟨content, hbefore, hcontent⟩ := Option.bind_eq_some_iff.mp h
    rw [before?] at hbefore
    split at hbefore
    · rename_i hlast
      cases hbefore
      rw [← collapseQuotes?_eq_some_iff.mp hcontent]
      exact (List.dropLast_append_getLast? quoteMark hlast).symm
    · cases hbefore
  · rintro rfl
    exact closeQuote?_doubleQuotes inner

/-- A qualified name is a text of names joined by dots. -/
theorem mem_of_isQualifiedName {name : Text} (h : isQualifiedName name = true) {c : Char}
    (hc : c ∈ name) : Lexeme.isNameContinue c = true := by
  rw [isQualifiedName, Bool.and_eq_true, List.all_eq_true] at h
  rcases mem_fields '.' hc with rfl | ⟨field, hfield, hmem⟩
  · decide
  · have hident := h.2 field hfield
    cases field with
    | nil => cases hmem
    | cons first others =>
        rw [isIdentifier, Bool.and_eq_true, List.all_eq_true] at hident
        rcases List.mem_cons.mp hmem with rfl | hmem
        · exact Lexeme.isNameContinue_of_isStart hident.1
        · exact Lexeme.isNameContinue_of_isContinue (hident.2 c hmem)

theorem head_of_isQualifiedName {name : Text} (h : isQualifiedName name = true) :
    ∃ c rest, name = c :: rest ∧ Identifier.isStart c = true := by
  rw [isQualifiedName, Bool.and_eq_true, List.all_eq_true] at h
  cases name with
  | nil => exact absurd h.1 (by decide)
  | cons c rest =>
      refine ⟨c, rest, rfl, ?_⟩
      by_cases hc : c = '.'
      · have hident := h.2 [] (by rw [fields, if_pos hc]; exact List.mem_cons_self)
        cases hident
      · cases hf : fields '.' rest with
        | nil => exact absurd hf (fields_ne_nil '.' rest)
        | cons field others =>
            have hident := h.2 (c :: field) (by
              rw [fields, if_neg hc, hf]
              exact List.mem_cons_self)
            rw [isIdentifier, Bool.and_eq_true] at hident
            exact hident.1

theorem ofText?_enumeration {typeName : Text} (h : isQualifiedName typeName = true) (value : Text) :
    ofText? (typeName ++ quoted value) = some (.enumeration typeName value) := by
  have hmem : quoteMark ∈ typeName ++ quoted value :=
    List.mem_append_right _ List.mem_cons_self
  have hnot : quoteMark ∉ typeName := fun hc => absurd (mem_of_isQualifiedName h hc) (by decide)
  have hhead : (typeName ++ quoted value).head? ≠ some quoteMark := by
    obtain ⟨c, rest, rfl, -⟩ := head_of_isQualifiedName h
    intro hsome
    exact hnot (Option.some.inj hsome ▸ List.mem_cons_self)
  have hword : ∀ {word : Text}, quoteMark ∉ word → typeName ++ quoted value ≠ word :=
    fun hword heq => hword (heq ▸ hmem)
  have hguid : isGuid (typeName ++ quoted value) = false := by
    rw [Bool.eq_false_iff]
    intro hguid
    have := mem_of_isGuid hguid hmem
    revert this
    decide
  rw [ofText?_of_form (hword (by decide)) (hword (by decide)) (hword (by decide)) hhead hguid,
    quoted, List.cons_append, cutAt?_append hnot]
  dsimp only
  rw [if_pos h, closeQuote?_doubleQuotes, Option.map_some]

theorem ofText?_guid {text : Text} (h : isGuid text = true) :
    ofText? text = some (.guid (text.map Char.toLower)) := by
  have hword : ∀ {word : Text}, isGuid word = false → text ≠ word := by
    rintro word hword rfl
    rw [h] at hword
    cases hword
  have hhead : text.head? ≠ some quoteMark := by
    obtain ⟨c, rest, rfl, hc⟩ := head_of_isGuid h
    rintro hsome
    rw [Option.some.inj hsome] at hc
    exact absurd hc (by decide)
  rw [ofText?, if_neg (hword (by decide)), if_neg (hword (by decide)), if_neg (hword (by decide)),
    if_neg hhead, if_pos h]

theorem ofText?_quoted (value : Text) : ofText? (quoted value) = some (.string value) := by
  have hword : ∀ {word : Text}, word.head? ≠ some quoteMark → quoted value ≠ word := by
    rintro word hword rfl
    exact hword rfl
  have hhead : (quoted value).head? = some quoteMark := rfl
  rw [ofText?, if_neg (hword (by decide)), if_neg (hword (by decide)), if_neg (hword (by decide)),
    if_pos hhead, quoted, List.cons_append, List.tail_cons, closeQuote?_doubleQuotes,
    Option.map_some]

/-! ### The grammar -/

variable {text : Text} {value : Literal}

theorem WrittenAs.ofText? (h : value.WrittenAs text) : ofText? text = some value := by
  cases h with
  | null => decide
  | yes => decide
  | no => decide
  | number h => exact ofText?_number h
  | string inner => exact ofText?_quoted inner
  | guid h => exact ofText?_guid h
  | enumeration h inner => exact ofText?_enumeration h inner

theorem writtenAs_of_ofText? (h : ofText? text = some value) : value.WrittenAs text := by
  rw [Literal.ofText?] at h
  split at h
  · rename_i hnull
    cases h
    exact hnull ▸ .null
  split at h
  · rename_i htrue
    cases h
    exact htrue ▸ .yes
  split at h
  · rename_i hfalse
    cases h
    exact hfalse ▸ .no
  split at h
  · rename_i hquote
    obtain ⟨others, rfl⟩ := List.head?_eq_some_iff.mp hquote
    obtain ⟨inner, hinner, rfl⟩ := Option.map_eq_some_iff.mp h
    rw [List.tail_cons, closeQuote?_eq_some_iff] at hinner
    exact hinner ▸ .string inner
  split at h
  · rename_i hguid
    cases h
    exact .guid hguid
  split at h
  · rename_i typeName others hcut
    obtain ⟨rfl, -⟩ := eq_of_cutAt?_eq_some hcut
    split at h
    · rename_i hname
      obtain ⟨inner, hinner, rfl⟩ := Option.map_eq_some_iff.mp h
      rw [closeQuote?_eq_some_iff] at hinner
      exact hinner ▸ .enumeration hname inner
    · cases h
  split at h
  · rename_i hinteger
    have hnumber : ofNumber text = value := (if_pos hinteger).trans (Option.some.inj h)
    exact hnumber ▸ .number (Number.written_iff.mpr (Or.inl hinteger))
  split at h
  · rename_i hinteger hdecimal
    have hnumber : ofNumber text = value := (if_neg hinteger).trans (Option.some.inj h)
    exact hnumber ▸ .number (Number.written_iff.mpr (Or.inr hdecimal))
  · cases h

theorem ofText?_eq_some_iff : Literal.ofText? text = some value ↔ value.WrittenAs text :=
  ⟨writtenAs_of_ofText?, WrittenAs.ofText?⟩

theorem parse_eq_ok_iff : parse text = .ok value ↔ value.WrittenAs text := by
  rw [← ofText?_eq_some_iff, parse]
  cases Literal.ofText? text with
  | none => simp
  | some found => simp

/-! ### The normal form -/

theorem WrittenAs.wellFormed (h : value.WrittenAs text) : value.WellFormed := by
  cases h with
  | null => trivial
  | yes => trivial
  | no => trivial
  | number h => exact wellFormed_ofNumber h
  | string inner => trivial
  | guid h =>
      refine ⟨isGuid_toLower h, ?_⟩
      rw [List.map_map]
      exact List.map_congr_left fun c _ => toLower_toLower c
  | enumeration h inner => exact h

/-- A well-formed literal is written as its canonical text. -/
theorem writtenAs_render (h : value.WellFormed) : value.WrittenAs value.render := by
  cases value with
  | null => exact .null
  | boolean value =>
      cases value with
      | true => exact .yes
      | false => exact .no
  | integer value =>
      have hinteger := Number.isInteger_ofInt value
      have hnumber : ofNumber (ofInt value) = .integer value := by
        rw [ofNumber, if_pos hinteger, ofIntegerText, Number.integerValue_ofInt]
        exact if_pos h
      have hwritten := WrittenAs.number (Number.written_iff.mpr (Or.inl hinteger))
      rwa [hnumber] at hwritten
  | decimal text =>
      have hwritten := WrittenAs.number h.1
      rwa [h.2] at hwritten
  | string value => exact .string value
  | guid text =>
      have hwritten := WrittenAs.guid h.1
      rwa [h.2] at hwritten
  | enumeration typeName value => exact .enumeration h value

/-- The canonical text of a well-formed literal reads as the literal. -/
theorem ofText?_render (h : value.WellFormed) : ofText? value.render = some value :=
  (writtenAs_render h).ofText?

/-- Every literal that is read is well formed. -/
theorem wellFormed_of_ofText? (h : ofText? text = some value) : value.WellFormed :=
  (writtenAs_of_ofText? h).wellFormed

end Literal

end ODataRequest
