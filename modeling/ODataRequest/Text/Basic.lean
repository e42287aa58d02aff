import ODataRequest.Text.Unicode

/-! Texts as lists of characters, with the few operations that requests are read with: trimming,
cutting at a character, splitting into fields, and the length in UTF-8 bytes that positions and
limits count in; and whole numbers in decimal digits. The small lemmas say that cutting and splitting
lose nothing, and that a written number is read as itself. -/

namespace ODataRequest

open Unicode

/-- A text, character by character. -/
abbrev Text := List Char

namespace Text

/-- The number of bytes of the UTF-8 encoding. -/
def utf8Length : Text → Nat
  | [] => 0
  | c :: rest => c.utf8Size + utf8Length rest

def trimStart (text : Text) : Text :=
  text.dropWhile isWhiteSpace

def trimEnd (text : Text) : Text :=
  (text.reverse.dropWhile isWhiteSpace).reverse

def trim (text : Text) : Text :=
  text.trimStart.trimEnd

/-- What stands before and after the first occurrence of a character. -/
def cutAt? (separator : Char) : Text → Option (Text × Text)
  | [] => none
  | c :: rest =>
    if c = separator then some ([], rest)
    else (cutAt? separator rest).map fun (before, after) => (c :: before, after)

/-- The fields between the occurrences of a character; never an empty list. -/
def fields (separator : Char) : Text → List Text
  | [] => [[]]
  | c :: rest =>
    if c = separator then [] :: fields separator rest
    else (fields separator rest).modifyHead (c :: ·)

/-- What follows a leading text. -/
def after? : (lead text : Text) → Option Text
  | [], text => some text
  | _ :: _, [] => none
  | l :: lead, c :: text => if l = c then after? lead text else none

/-- What precedes a closing character. -/
def before? (closing : Char) (text : Text) : Option Text :=
  if text.getLast? = some closing then some text.dropLast else none

/-- The text without the given character repeated at its end. -/
def dropTrailing (c : Char) (text : Text) : Text :=
  (text.reverse.dropWhile (· == c)).reverse

@[simp] theorem utf8Length_nil : utf8Length [] = 0 := rfl

@[simp] theorem utf8Length_cons (c : Char) (text : Text) :
    utf8Length (c :: text) = c.utf8Size + utf8Length text := rfl

@[simp] theorem utf8Length_append (left right : Text) :
    utf8Length (left ++ right) = utf8Length left + utf8Length right := by
  induction left with
  | nil => simp
  | cons c rest ih => simp [ih, Nat.add_assoc]

/-- Cutting at a character takes away that one occurrence and keeps all else. -/
theorem eq_of_cutAt?_eq_some {separator : Char} {text before after : Text}
    (h : cutAt? separator text = some (before, after)) :
    text = before ++ separator :: after ∧ separator ∉ before := by
  induction text generalizing before after with
  | nil => simp [cutAt?] at h
  | cons c rest ih =>
    by_cases hc : c = separator
    · simp only [cutAt?, hc, if_true, Option.some.injEq, Prod.mk.injEq] at h
      obtain ⟨rfl, rfl⟩ := h
      simp [hc]
    · simp only [cutAt?, hc, if_false, Option.map_eq_some_iff, Prod.exists, Prod.mk.injEq] at h
      obtain ⟨b, a, hba, rfl, rfl⟩ := h
      obtain ⟨rfl, hmem⟩ := ih hba
      simp [hmem, Ne.symm hc]

/-- A text without the character cannot be cut at it. -/
theorem cutAt?_eq_none_iff {separator : Char} {text : Text} :
    cutAt? separator text = none ↔ separator ∉ text := by
  induction text with
  | nil => simp [cutAt?]
  | cons c rest ih =>
    by_cases hc : c = separator
    · simp [cutAt?, hc]
    · simp [cutAt?, hc, ih, Ne.symm hc]

theorem fields_ne_nil (separator : Char) (text : Text) : fields separator text ≠ [] := by
  induction text with
  | nil => simp [fields]
  | cons c rest ih =>
    by_cases hc : c = separator
    · simp [fields, hc]
    · simp [fields, hc, ih]

/-- Joining the fields with the character between them gives the text back. -/
theorem intercalate_fields (separator : Char) (text : Text) :
    [separator].intercalate (fields separator text) = text := by
  induction text with
  | nil => rfl
  | cons c rest ih =>
    by_cases hc : c = separator
    · simp only [fields, hc, if_true]
      cases hf : fields separator rest with
      | nil => exact absurd hf (fields_ne_nil separator rest)
      | cons field others =>
        rw [hf] at ih
        simpa [List.intercalate, hc] using ih
    · simp only [fields, hc, if_false]
      cases hf : fields separator rest with
      | nil => exact absurd hf (fields_ne_nil separator rest)
      | cons field others =>
        rw [hf] at ih
        cases others with
        | nil => simpa [List.intercalate] using ih
        | cons other others => simpa [List.intercalate] using ih

/-- A text begins with a lead exactly if it is the lead and what follows. -/
theorem after?_eq_some_iff {lead text rest : Text} :
    after? lead text = some rest ↔ text = lead ++ rest := by
  induction lead generalizing text with
  | nil => simp [after?]
  | cons l lead ih =>
    cases text with
    | nil => simp [after?]
    | cons c text =>
      by_cases hl : l = c
      · simp [after?, hl, ih]
      · simp [after?, hl, Ne.symm hl]

/-! ### Decimal digits -/

/-- A non-empty run of decimal digits. -/
def isDigits (text : Text) : Bool :=
  !text.isEmpty && text.all Char.isDigit

/-- The number that a run of decimal digits denotes. -/
def digitsValue (text : Text) : Nat :=
  Nat.ofDigitChars 10 text 0

/-- The decimal digits of a number, without leading zeros. -/
def ofNat (n : Nat) : Text :=
  Nat.toDigits 10 n

/-- The decimal digits of an integer, after a `-` if it is negative. -/
def ofInt : Int → Text
  | .ofNat n => ofNat n
  | .negSucc n => '-' :: ofNat (n + 1)

@[simp] theorem digitsValue_ofNat (n : Nat) : digitsValue (ofNat n) = n :=
  Nat.ofDigitChars_ten_toDigits

theorem isDigits_ofNat (n : Nat) : isDigits (ofNat n) = true := by
  simp only [isDigits, ofNat, Bool.and_eq_true, Bool.not_eq_true', List.isEmpty_eq_false_iff,
    List.all_eq_true]
  exact ⟨Nat.toDigits_ne_nil, fun c hc => Nat.isDigit_of_mem_toDigits (by omega) (by omega) hc⟩

end Text

end ODataRequest
