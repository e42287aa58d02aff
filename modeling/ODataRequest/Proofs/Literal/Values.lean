import Mathlib.Algebra.Group.Int.Defs
import Mathlib.Algebra.Group.Nat.Defs
import Mathlib.Data.List.Induction
import ODataRequest.Proofs.Literal.NormalForm

/-! The values of numbers. What a text of digits denotes is said digit by digit, without reference to
how it is read. Main statement: the canonical text of a literal reads as the literal, an integer has the
value that its text denotes where 64 bits hold it and stays as written where they do not, and a bound is
accepted exactly if it is a natural number of 64 bits. -/

namespace ODataRequest

open Text

/-- The natural number that a text of decimal digits denotes: every digit counts one tenth of the one
before it. -/
inductive Text.Denotes : Text → Nat → Prop where
  | digit {digit : Nat} (h : digit < 10) : Denotes [digit.digitChar] digit
  | snoc {text : Text} {n digit : Nat} (h : Denotes text n) (hdigit : digit < 10) :
      Denotes (text ++ [digit.digitChar]) (10 * n + digit)

namespace Text

theorem exists_digitChar {c : Char} (h : c.isDigit = true) : ∃ digit < 10, c = digit.digitChar := by
  obtain ⟨hlow, hhigh⟩ := Unicode.isDigit_iff.mp h
  refine ⟨c.toNat - 48, by omega, Char.toNat_inj.mp ?_⟩
  rw [Nat.toNat_digitChar_of_lt_ten (by omega)]
  omega

theorem digitsValue_snoc (text : Text) {digit : Nat} (h : digit < 10) :
    digitsValue (text ++ [digit.digitChar]) = 10 * digitsValue text + digit := by
  rw [digitsValue, Nat.ofDigitChars_append, Nat.ofDigitChars_cons, Nat.ofDigitChars_nil]
  exact congrArg _ (Nat.toNat_digitChar_sub_48_of_lt_ten h)

/-- The texts that denote a number are the non-empty ones of digits, and each denotes what it is read
as. -/
theorem denotes_iff {text : Text} {n : Nat} : text.Denotes n ↔ isDigits text = true ∧ digitsValue text = n := by
  have hdigit : ∀ {digit : Nat}, digit < 10 → digit.digitChar.isDigit = true := by
    intro digit h
    rw [Unicode.isDigit_iff, Nat.toNat_digitChar_of_lt_ten h]
    omega
  constructor
  · intro h
    rw [Number.isDigits_iff]
    induction h with
    | digit h =>
        refine ⟨⟨List.cons_ne_nil _ _, ?_⟩, ?_⟩
        · rw [List.all_cons, hdigit h]
          rfl
        · exact (digitsValue_snoc [] h).trans (Nat.zero_add _)
    | snoc _ h ih =>
        obtain ⟨⟨-, hall⟩, hvalue⟩ := ih
        refine ⟨⟨List.append_ne_nil_of_right_ne_nil _ (List.cons_ne_nil _ _), ?_⟩, ?_⟩
        · rw [List.all_append, hall, List.all_cons, hdigit h]
          rfl
        · rw [digitsValue_snoc _ h, hvalue]
  · rintro ⟨hdigits, rfl⟩
    obtain ⟨hnonempty, hall⟩ := Number.isDigits_iff.mp hdigits
    clear hdigits
    induction text using List.reverseRecOn with
    | nil => exact absurd rfl hnonempty
    | append_singleton text c ih =>
        rw [List.all_append, List.all_cons, Bool.and_eq_true, Bool.and_eq_true] at hall
        obtain ⟨digit, h, rfl⟩ := exists_digitChar hall.2.1
        rw [digitsValue_snoc text h]
        by_cases hfirst : text = []
        · have hzero : digitsValue [] = 0 := rfl
          rw [hfirst, hzero, Nat.mul_zero, Nat.zero_add]
          exact .digit h
        · exact .snoc (ih hfirst hall.1) h

end Text

/-- The integer that a text of digits denotes, possibly after a minus sign. -/
inductive Number.Denotes : Text → Int → Prop where
  | natural {digits : Text} {n : Nat} (h : digits.Denotes n) : Denotes digits n
  | negative {digits : Text} {n : Nat} (h : digits.Denotes n) : Denotes ('-' :: digits) (-n)

namespace Number

/-- A text that denotes an integer is written as one, and its value is the integer. -/
theorem Denotes.integerValue {text : Text} {value : Int} (h : Denotes text value) :
    isInteger text = true ∧ Number.integerValue text = value := by
  cases h with
  | natural h =>
      obtain ⟨hdigits, rfl⟩ := denotes_iff.mp h
      obtain ⟨c, rest, rfl, hc⟩ := isDigits_cons hdigits
      have hne : c ≠ '-' := ne_of_isDigit hc
      refine ⟨?_, ?_⟩
      · have hbody : unsigned ([] ++ c :: rest) = c :: rest := unsigned_append (Or.inl rfl) hc
        rw [List.nil_append] at hbody
        rw [isInteger, hbody]
        exact hdigits
      · rw [Number.integerValue]
        rintro digits heq
        exact hne (List.cons.inj heq).1
  | negative h =>
      obtain ⟨hdigits, rfl⟩ := denotes_iff.mp h
      exact ⟨hdigits, rfl⟩

/-- The texts that denote an integer are those of digits after an optional minus sign. -/
theorem isInteger_iff_denotes {text : Text} : isInteger text = true ↔ ∃ value, Denotes text value := by
  constructor
  · intro h
    have hdenotes : (unsigned text).Denotes (digitsValue (unsigned text)) := denotes_iff.mpr ⟨h, rfl⟩
    obtain ⟨hsign, hunsigned, htext⟩ := spanSign_spec text
    rw [hunsigned] at htext
    rw [htext]
    rcases hsign with hsign | hsign
    · rw [hsign]
      exact ⟨_, .natural hdenotes⟩
    · rw [hsign]
      exact ⟨_, .negative hdenotes⟩
  · rintro ⟨value, h⟩
    exact h.integerValue.1

end Number

namespace Literal

/-- An integer is read as its value if 64 bits hold it, and as it is written otherwise. -/
theorem parse_of_denotes {text : Text} {value : Int} (h : Number.Denotes text value) : parse text =
    .ok (if -2 ^ 63 ≤ value ∧ value ≤ 2 ^ 63 - 1 then .integer value else .decimal text) := by
  obtain ⟨hinteger, rfl⟩ := h.integerValue
  have hwritten := WrittenAs.number (Number.written_iff.mpr (Or.inl hinteger))
  rw [parse_eq_ok_iff.mpr hwritten, ofNumber, if_pos hinteger]
  rfl

/-- **Normal forms and ranges of literals.** The canonical text of every literal that is read is read as
the same literal. The texts of digits, possibly after a minus sign, are those that denote an integer; such
a text is read as its integer from -2⁶³ to 2⁶³ - 1 and kept as it is written beyond. A text is accepted as
a bound exactly if what stands between its blanks denotes a natural number below 2⁶⁴, which is then the
bound. -/
theorem parse_normal :
    (∀ text value, parse text = .ok value → parse value.render = .ok value) ∧
    (∀ text, Number.isInteger text = true ↔ ∃ value, Number.Denotes text value) ∧
    (∀ text value, Number.Denotes text value → parse text =
      .ok (if -2 ^ 63 ≤ value ∧ value ≤ 2 ^ 63 - 1 then .integer value else .decimal text)) ∧
    ∀ raw n, parseNonNegative raw = .ok n ↔ raw.trim.Denotes n ∧ n ≤ 2 ^ 64 - 1 := by
  refine ⟨?_, fun _ => Number.isInteger_iff_denotes, fun _ _ => parse_of_denotes, ?_⟩
  · intro text value h
    rw [parse_eq_ok_iff] at h ⊢
    exact writtenAs_render h.wellFormed
  · intro raw n
    rw [denotes_iff, parseNonNegative]
    constructor
    · intro h
      split at h
      · rename_i hvalue
        cases h
        exact ⟨⟨hvalue.1, rfl⟩, hvalue.2⟩
      · cases h
    · rintro ⟨⟨hdigits, rfl⟩, hbound⟩
      exact if_pos ⟨hdigits, hbound⟩

/-- The least integer with a zero in front of it, the first number beyond it, and the greatest bound
between blanks. -/
theorem parse_normal_bounds :
    parse "-09223372036854775808".toList = .ok (.integer (-9223372036854775808)) ∧
      parse "-9223372036854775808".toList = .ok (.integer (-9223372036854775808)) ∧
      parse "-9223372036854775809".toList = .ok (.decimal "-9223372036854775809".toList) ∧
      parseNonNegative " 18446744073709551615 ".toList = .ok 18446744073709551615 := by
  obtain ⟨hrender, -, hinteger, hbound⟩ := parse_normal
  have hleast : Number.Denotes "-09223372036854775808".toList (-9223372036854775808) :=
    .negative (denotes_iff.mpr (by decide +kernel : _ ∧ _ = 9223372036854775808))
  have hbeyond : Number.Denotes "-9223372036854775809".toList (-9223372036854775809) :=
    .negative (denotes_iff.mpr (by decide +kernel : _ ∧ _ = 9223372036854775809))
  have hparse := (hinteger _ _ hleast).trans (congrArg Except.ok (if_pos (by decide)))
  refine ⟨hparse, hrender _ _ hparse, ?_, ?_⟩
  · exact (hinteger _ _ hbeyond).trans (congrArg Except.ok (if_neg (by decide)))
  · exact (hbound _ _).mpr ⟨denotes_iff.mpr (by decide +kernel), by decide⟩

end Literal

end ODataRequest
