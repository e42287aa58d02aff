import ODataRequest.Query.Lexeme
import ODataRequest.Text.Identifier

/-! The classes of characters that tokens are told apart by. Blanks, the characters of names, digits
and marks of punctuation do not overlap, so that the first character of a token says what kind of
token it is, and no blank belongs to one. What holds of every character of ASCII is decided, and lower
case changes nothing else. -/

namespace ODataRequest

open Unicode

namespace Unicode

/-- No range of the first set meets a range of the second. -/
def Ranges.apart (left right : Ranges) : Bool :=
  left.all fun (first, last) => right.all fun (first', last') => last < first' || last' < first

theorem Ranges.not_contains_of_apart {left right : Ranges} (h : left.apart right = true) {n : Nat}
    (hn : left.contains n = true) : right.contains n = false := by
  rw [Ranges.contains_eq_true_iff] at hn
  obtain ⟨first, last, hmem, hfirst, hlast⟩ := hn
  rw [Bool.eq_false_iff, ne_eq, Ranges.contains_eq_true_iff]
  rintro ⟨first', last', hmem', hfirst', hlast'⟩
  simp only [Ranges.apart, List.all_eq_true, Prod.forall, Bool.or_eq_true, decide_eq_true_eq] at h
  have := h first last hmem first' last' hmem'
  omega

/-- A blank of ASCII is one of six. -/
theorem isWhiteSpace_ascii {c : Char} (h : isWhiteSpace c = true) (hc : c.toNat < 0x80) :
    c.toNat = 0x20 ∨ (0x9 ≤ c.toNat ∧ c.toNat ≤ 0xD) := by
  rw [isWhiteSpace, Ranges.contains_eq_true_iff] at h
  obtain ⟨first, last, hmem, hfirst, hlast⟩ := h
  simp only [whiteSpaceRanges, List.mem_cons, Prod.mk.injEq, List.not_mem_nil, or_false] at hmem
  omega

theorem isAlpha_iff {c : Char} : c.isAlpha = true ↔
    (0x41 ≤ c.toNat ∧ c.toNat ≤ 0x5A) ∨ (0x61 ≤ c.toNat ∧ c.toNat ≤ 0x7A) := by
  have hupper : c.isUpper = true ↔ 0x41 ≤ c.toNat ∧ c.toNat ≤ 0x5A := decide_eq_true_iff
  have hlower : c.isLower = true ↔ 0x61 ≤ c.toNat ∧ c.toNat ≤ 0x7A := by
    show (decide (0x61 ≤ c.toNat) && decide (c.toNat ≤ 0x7A)) = true ↔ _
    rw [Bool.and_eq_true, decide_eq_true_eq, decide_eq_true_eq]
  show (c.isUpper || c.isLower) = true ↔ _
  rw [Bool.or_eq_true, hupper, hlower]

theorem isDigit_iff {c : Char} : c.isDigit = true ↔ 0x30 ≤ c.toNat ∧ c.toNat ≤ 0x39 := by
  simp only [Char.isDigit, Bool.and_eq_true, decide_eq_true_eq, ge_iff_le,
    UInt32.le_iff_toNat_le]
  exact Iff.rfl

theorem le_iff_toNat_le {c d : Char} : c ≤ d ↔ c.toNat ≤ d.toNat := by
  rw [Char.le_def, UInt32.le_iff_toNat_le]
  exact Iff.rfl

/-- No blank is a letter or a number. -/
theorem isAlphanumeric_of_isWhiteSpace {c : Char} (h : isWhiteSpace c = true) :
    isAlphanumeric c = false := by
  rw [isAlphanumeric, Bool.or_eq_false_iff, isAlphabetic, isNumeric]
  by_cases hc : c.toNat < 0x80
  · rw [if_pos hc, if_pos hc]
    have hblank := isWhiteSpace_ascii h hc
    constructor
    · rw [Bool.eq_false_iff]
      intro halpha
      have := isAlpha_iff.mp halpha
      omega
    · rw [Bool.eq_false_iff]
      intro hdigit
      have := isDigit_iff.mp hdigit
      omega
  · rw [if_neg hc, if_neg hc]
    have halphabetic : whiteSpaceRanges.apart alphabeticRanges = true := by decide +kernel
    have hnumeric : whiteSpaceRanges.apart numericRanges = true := by decide +kernel
    exact ⟨Ranges.not_contains_of_apart halphabetic h, Ranges.not_contains_of_apart hnumeric h⟩

end Unicode

/-- What holds of the characters of ASCII one by one. -/
theorem of_ascii {P : Char → Prop} (c : Char) (hc : c.toNat < 0x80) (h : ∀ n < 0x80, P (Char.ofNat n)) :
    P c := by
  have hchar := h c.toNat hc
  rwa [Char.ofNat_toNat] at hchar

/-! ### Lower case -/

theorem toNat_toLower (c : Char) :
    c.toLower.toNat = if 0x41 ≤ c.toNat ∧ c.toNat ≤ 0x5A then c.toNat + 0x20 else c.toNat := by
  have hval : c.val.toNat = c.toNat := rfl
  unfold Char.toLower
  split
  · rename_i h
    rw [ge_iff_le, UInt32.le_iff_toNat_le, UInt32.le_iff_toNat_le] at h
    have hrange : 0x41 ≤ c.toNat ∧ c.toNat ≤ 0x5A := h
    have hshift : ('a'.val - 'A'.val).toNat = 0x20 := rfl
    rw [if_pos hrange]
    show (c.val + ('a'.val - 'A'.val)).toNat = _
    rw [UInt32.toNat_add, hshift, hval, Nat.mod_eq_of_lt (by omega)]
  · rename_i h
    rw [ge_iff_le, UInt32.le_iff_toNat_le, UInt32.le_iff_toNat_le] at h
    have hrange : ¬(0x41 ≤ c.toNat ∧ c.toNat ≤ 0x5A) := h
    rw [if_neg hrange]

theorem toLower_toLower (c : Char) : c.toLower.toLower = c.toLower := by
  have hc := toNat_toLower c
  rw [← Char.toNat_inj, toNat_toLower c.toLower]
  split at hc <;> split <;> omega

namespace Symbol

theorem char_of_ofChar? {c : Char} {symbol : Symbol} (h : ofChar? c = some symbol) :
    c = symbol.char := by
  unfold ofChar? at h
  split at h <;> simp only [Option.some.injEq, reduceCtorEq] at h <;> subst h <;> rfl

theorem ofChar?_char {symbol : Symbol} (h : symbol ≠ .minus) : ofChar? symbol.char = some symbol := by
  cases symbol with
  | minus => exact absurd rfl h
  | _ => rfl

end Symbol

namespace Lexeme

/-- A mark of punctuation that neither begins nor continues a name. -/
theorem not_name_of_symbol (symbol : Symbol) :
    isNameContinue symbol.char = false ∧ isNameStart symbol.char = false := by
  cases symbol <;> decide

theorem ofChar?_of_isNameContinue {c : Char} (h : isNameContinue c = true) :
    Symbol.ofChar? c = none := by
  rw [Option.eq_none_iff_forall_ne_some]
  intro symbol hsymbol
  rw [Symbol.char_of_ofChar? hsymbol, (not_name_of_symbol symbol).1] at h
  cases h

theorem ofChar?_of_isNameStart {c : Char} (h : isNameStart c = true) : Symbol.ofChar? c = none := by
  rw [Option.eq_none_iff_forall_ne_some]
  intro symbol hsymbol
  rw [Symbol.char_of_ofChar? hsymbol, (not_name_of_symbol symbol).2] at h
  cases h

theorem ne_of_isNameContinue {c mark : Char} (h : isNameContinue c = true)
    (hmark : isNameContinue mark = false := by decide) : c ≠ mark := by
  rintro rfl
  rw [h] at hmark
  cases hmark

theorem ne_of_isNameStart {c mark : Char} (h : isNameStart c = true)
    (hmark : isNameStart mark = false := by decide) : c ≠ mark := by
  rintro rfl
  rw [h] at hmark
  cases hmark

theorem isNameContinue_of_isAlphanumeric {c : Char} (h : isAlphanumeric c = true) :
    isNameContinue c = true := by
  rw [isNameContinue, h]
  rfl

theorem isNameContinue_of_isDigit {c : Char} (h : c.isDigit = true) : isNameContinue c = true := by
  have hascii : c.toNat < 0x80 := by
    have := isDigit_iff.mp h
    omega
  apply isNameContinue_of_isAlphanumeric
  rw [isAlphanumeric, isNumeric, if_pos hascii, h, Bool.or_true]

theorem isNameContinue_of_isAlpha {c : Char} (h : c.isAlpha = true) : isNameContinue c = true := by
  have hascii : c.toNat < 0x80 := by
    have := isAlpha_iff.mp h
    omega
  apply isNameContinue_of_isAlphanumeric
  rw [isAlphanumeric, isAlphabetic, if_pos hascii, h, Bool.true_or]

theorem isNameContinue_of_isHexDigit {c : Char} (h : isHexDigit c = true) :
    isNameContinue c = true := by
  simp only [isHexDigit, Bool.or_eq_true, Bool.and_eq_true, decide_eq_true_eq, le_iff_toNat_le]
    at h
  have ha : 'a'.toNat = 0x61 := rfl
  have hf : 'f'.toNat = 0x66 := rfl
  have hA : 'A'.toNat = 0x41 := rfl
  have hF : 'F'.toNat = 0x46 := rfl
  rcases h with (h | h) | h
  · exact isNameContinue_of_isDigit h
  · exact isNameContinue_of_isAlpha (isAlpha_iff.mpr (by omega))
  · exact isNameContinue_of_isAlpha (isAlpha_iff.mpr (by omega))

theorem isNameContinue_of_isContinue {c : Char} (h : Identifier.isContinue c = true) :
    isNameContinue c = true := by
  rw [Identifier.isContinue] at h
  rw [isNameContinue, h, Bool.true_or]

theorem isNameStart_of_isStart {c : Char} (h : Identifier.isStart c = true) :
    isNameStart c = true := by
  rw [Identifier.isStart] at h
  rw [isNameStart, h, Bool.true_or, Bool.true_or]

theorem isNameContinue_of_isStart {c : Char} (h : Identifier.isStart c = true) :
    isNameContinue c = true := by
  rw [Identifier.isStart, Bool.or_eq_true] at h
  rcases h with h | h
  · rw [isNameContinue, isAlphanumeric, h, Bool.true_or, Bool.true_or, Bool.true_or]
  · rw [isNameContinue, h, Bool.or_true, Bool.true_or]

/-- No blank belongs to a name. -/
theorem not_blank_of_isNameContinue {c : Char} (h : isNameContinue c = true) :
    isWhiteSpace c = false := by
  rw [Bool.eq_false_iff]
  intro hblank
  rw [isNameContinue, isAlphanumeric_of_isWhiteSpace hblank, Bool.false_or, Bool.or_eq_true,
    decide_eq_true_eq, decide_eq_true_eq] at h
  rcases h with rfl | rfl <;> exact absurd hblank (by decide)

theorem not_blank_of_isNameStart {c : Char} (h : isNameStart c = true) :
    isWhiteSpace c = false := by
  rw [Bool.eq_false_iff]
  intro hblank
  have halpha : isAlphabetic c = false :=
    (Bool.or_eq_false_iff.mp (isAlphanumeric_of_isWhiteSpace hblank)).1
  simp only [isNameStart, halpha, Bool.false_or, Bool.or_eq_true, decide_eq_true_eq] at h
  rcases h with (rfl | rfl) | rfl <;> exact absurd hblank (by decide)

theorem not_digit_of_isNameStart {c : Char} (h : isNameStart c = true) : c.isDigit = false := by
  rw [Bool.eq_false_iff]
  intro hdigit
  have hrange := isDigit_iff.mp hdigit
  have halpha : isAlphabetic c = false := by
    rw [isAlphabetic, if_pos (by omega), Bool.eq_false_iff]
    intro hletter
    have := isAlpha_iff.mp hletter
    omega
  simp only [isNameStart, halpha, Bool.false_or, Bool.or_eq_true, decide_eq_true_eq] at h
  rcases h with (rfl | rfl) | rfl <;> exact absurd hdigit (by decide)

end Lexeme

end ODataRequest
