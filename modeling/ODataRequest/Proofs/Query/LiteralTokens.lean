import ODataRequest.Proofs.Path.Keys
import ODataRequest.Proofs.Query.RoundTrip

/-! Literals as whole texts and as tokens. What is scanned as a literal token is written as the
literal, and what is written as one is a literal to both readers. Main statement: the scanner and the
classifier agree on every text, and a literal is the same value as a key and in an expression. -/

namespace ODataRequest

open Text Unicode Grammar

/-- A text that is one literal token is a text of the literal. -/
theorem Lexeme.next?_eq_literal_iff {text : Text} {value : Literal} :
    next? text = .ok (some ⟨.literal value, text, []⟩) ↔ value.WrittenAs text := by
  constructor
  · intro h
    rw [next?] at h
    split at h
    · cases h
    · rename_i first others _
      obtain ⟨⟨token, rest⟩, hscan, heq⟩ := map_eq_ok h
      cases heq
      obtain ⟨word, hword, hcases⟩ := scan_cases hscan
      rw [List.append_nil] at hword
      rcases hcases with ⟨found, heq, hwritten⟩ | ⟨heq, -⟩ | ⟨symbol, heq, -⟩
      · cases heq
        exact hword ▸ hwritten
      · cases heq
      · cases heq
  · intro h
    have hnext : next? (text ++ []) = .ok (some ⟨.literal value, text ++ [], []⟩) :=
      next?_writtenAs h rfl
    rwa [List.append_nil] at hnext

/-- One literal between blanks is read as an expression. -/
theorem Expression.parse_of_writtenAs {text before after : Text} {value : Literal} {maxDepth : Nat}
    (h : value.WrittenAs text) (hbefore : before.all isWhiteSpace = true)
    (hafter : after.all isWhiteSpace = true) :
    Expression.parse (before ++ text ++ after) maxDepth = .ok (.literal value) := by
  have hoperand : OperandText (nested maxDepth) [] unaryPrecedence (before ++ text)
      (some (.literal value)) := by
    refine OperandText.of_tight fun rest hrest => ?_
    have hnext : Lexeme.next? (before ++ text ++ rest) =
        .ok (some ⟨.literal value, text ++ rest, rest⟩) := by
      rw [List.append_assoc, Lexeme.next?_blanks hbefore, Lexeme.next?_writtenAs h hrest.breaks]
    exact operand_of_literal hnext
  have hread : expression (nested maxDepth) [] (before ++ text ++ after) =
      .ok (.literal value, after) :=
    hoperand.expression (by decide) (by decide) (Stops.blank hafter)
  rw [Expression.parse, mapError_eq_ok_iff, readWhole, hread]
  show (Reader.atEnd after >>= fun _ => Except.ok (Expression.literal value)) = _
  rw [Reader.atEnd, Lexeme.next?_of_blank hafter]
  rfl

/-- **One grammar of literals.** The scanner takes a text for exactly one token, a literal, if and
only if the text as a whole is classified as the literal. Between blanks such a text is the same
value as a key and in an expression, and nothing else is an unnamed key. -/
theorem Literal.token_iff_parse (text : Text) (value : Literal) :
    (Lexeme.next? text = .ok (some ⟨.literal value, text, []⟩) ↔ Literal.parse text = .ok value) ∧
      (Literal.parse text = .ok value → ∀ before after : Text, before.all isWhiteSpace = true →
        after.all isWhiteSpace = true → ∀ segment maxDepth,
          KeyPredicate.parse segment (before ++ text ++ after) = .ok (.single value) ∧
            Expression.parse (before ++ text ++ after) maxDepth = .ok (.literal value)) ∧
      ∀ segment, KeyPredicate.parse segment text = .ok (.single value) →
        Literal.parse text.trim = .ok value := by
  refine ⟨?_, ?_, ?_⟩
  · rw [Lexeme.next?_eq_literal_iff, parse_eq_ok_iff]
  · intro h before after hbefore hafter segment maxDepth
    rw [parse_eq_ok_iff] at h
    refine ⟨?_, Expression.parse_of_writtenAs h hbefore hafter⟩
    rw [KeyPredicate.parse, KeyPredicate.read_of_writtenAs h hbefore hafter]
    rfl
  · intro segment h
    rw [KeyPredicate.parse, mapError_eq_ok_iff] at h
    rcases KeyPredicate.read_cases h with ⟨found, heq, hwritten⟩ | ⟨pairs, heq, -⟩
    · cases heq
      exact parse_eq_ok_iff.mpr hwritten
    · cases heq

/-- A member of an enumeration type of which the name has letters beyond ASCII, with a quote in it. -/
theorem Literal.token_iff_parse_enumeration :
    Lexeme.next? "Größe.Maß'it''s'".toList =
        .ok (some ⟨.literal (.enumeration "Größe.Maß".toList "it's".toList),
          "Größe.Maß'it''s'".toList, []⟩) ∧
      KeyPredicate.parse "Sizes".toList " Größe.Maß'it''s'".toList =
        .ok (.single (.enumeration "Größe.Maß".toList "it's".toList)) ∧
      Expression.parse " Größe.Maß'it''s'".toList 0 =
        .ok (.literal (.enumeration "Größe.Maß".toList "it's".toList)) := by
  have hparse : Literal.parse "Größe.Maß'it''s'".toList =
      .ok (.enumeration "Größe.Maß".toList "it's".toList) := by
    decide +kernel
  obtain ⟨htoken, hvalue, -⟩ := Literal.token_iff_parse "Größe.Maß'it''s'".toList
    (.enumeration "Größe.Maß".toList "it's".toList)
  exact ⟨htoken.mpr hparse, hvalue hparse [' '] [] (by decide) rfl "Sizes".toList 0⟩

end ODataRequest
