import ODataRequest.Proofs.Text.Characters
import ODataRequest.Proofs.Text.Runs

/-! Written numbers. A number is an optional minus sign, digits, possibly a point with digits and
possibly an exponent. The checks on a whole text and the scanner that takes the longest number from
the beginning of a text agree on this form. -/

namespace ODataRequest

open Text Unicode

namespace Number

def IsSign (text : Text) : Prop :=
  text = [] ∨ text = ['-']

/-- Nothing, or a point with digits. -/
def IsFraction (text : Text) : Prop :=
  text = [] ∨ ∃ digits, text = '.' :: digits ∧ isDigits digits = true

def IsExponentSign (text : Text) : Prop :=
  text = [] ∨ text = ['+'] ∨ text = ['-']

/-- Nothing, or an exponent with its mark. -/
def IsExponentPart (text : Text) : Prop :=
  text = [] ∨ ∃ mark sign digits, text = mark :: (sign ++ digits) ∧ isExponentMark mark = true ∧
    IsExponentSign sign ∧ isDigits digits = true

/-- A number as it is written. -/
inductive Written : Text → Prop where
  | mk {sign whole fraction exponent : Text} (hsign : IsSign sign) (hwhole : isDigits whole = true)
      (hfraction : IsFraction fraction) (hexponent : IsExponentPart exponent) :
      Written (sign ++ whole ++ fraction ++ exponent)

theorem isDigits_iff {text : Text} : isDigits text = true ↔ text ≠ [] ∧ text.all Char.isDigit = true := by
  simp [isDigits]

theorem isDigits_cons {text : Text} (h : isDigits text = true) :
    ∃ c rest, text = c :: rest ∧ c.isDigit = true := by
  rw [isDigits_iff] at h
  cases text with
  | nil => exact absurd rfl h.1
  | cons c rest =>
      have hall := h.2
      rw [List.all_cons, Bool.and_eq_true] at hall
      exact ⟨c, rest, rfl, hall.1⟩

theorem not_exponentMark_of_isDigit {c : Char} (h : c.isDigit = true) : isExponentMark c = false := by
  rw [Bool.eq_false_iff]
  intro hmark
  simp only [isExponentMark, Bool.or_eq_true, decide_eq_true_eq] at hmark
  rcases hmark with rfl | rfl <;> exact absurd h (by decide)

theorem ne_of_isDigit {c mark : Char} (h : c.isDigit = true)
    (hmark : mark.isDigit = false := by decide) : c ≠ mark := by
  rintro rfl
  rw [h] at hmark
  cases hmark

section Scanning

open Lexeme

variable {sign whole fraction exponent rest : Text}

/-- Behind a number that does not run into a name stands no character that could continue it. -/
theorem head?_any_of_not_continuesName (hrest : continuesName rest = false) {p : Char → Bool}
    (hp : ∀ c, p c = true → isNameContinue c = true) : rest.head?.any p = false := by
  cases rest with
  | nil => rfl
  | cons c rest =>
      have hc : isNameContinue c = false := hrest
      rw [List.head?_cons, Option.any_some, Bool.eq_false_iff]
      intro hpc
      rw [hp c hpc] at hc
      cases hc

theorem head?_exponent (h : IsExponentPart exponent) (hrest : continuesName rest = false)
    {p : Char → Bool} (hp : ∀ c, p c = true → isNameContinue c = true)
    (hmark : ∀ c, isExponentMark c = true → p c = false) : (exponent ++ rest).head?.any p = false := by
  rcases h with rfl | ⟨mark, sign, digits, rfl, hm, -⟩
  · exact head?_any_of_not_continuesName hrest hp
  · simpa using hmark mark hm

theorem head?_fraction (hfraction : IsFraction fraction) (hexponent : IsExponentPart exponent)
    (hrest : continuesName rest = false) :
    (fraction ++ (exponent ++ rest)).head?.any Char.isDigit = false := by
  rcases hfraction with rfl | ⟨digits, rfl, -⟩
  · refine head?_exponent hexponent hrest (fun c hc => isNameContinue_of_isDigit hc) ?_
    intro c hc
    rw [Bool.eq_false_iff]
    intro hdigit
    rw [not_exponentMark_of_isDigit hdigit] at hc
    cases hc
  · rfl

theorem spanSign_append (hsign : IsSign sign) (hwhole : isDigits whole = true) :
    spanSign (sign ++ (whole ++ rest)) = (sign, whole ++ rest) := by
  obtain ⟨c, others, rfl, hc⟩ := isDigits_cons hwhole
  rcases hsign with rfl | rfl
  · have hne : c ≠ '-' := ne_of_isDigit hc
    simp only [List.nil_append, List.cons_append, spanSign]
    split
    · rename_i heq
      exact absurd (List.cons.inj heq).1 hne
    · rfl
  · rfl

theorem spanDigits_append (hwhole : isDigits whole = true) (h : rest.head?.any Char.isDigit = false) :
    spanDigits (whole ++ rest) = (whole, rest) := by
  have hall := (isDigits_iff.mp hwhole).2
  rw [spanDigits, takeWhile_run hall h, dropWhile_run hall h]

theorem spanFraction_append (hfraction : IsFraction fraction) (hexponent : IsExponentPart exponent)
    (hrest : continuesName rest = false) :
    spanFraction (fraction ++ (exponent ++ rest)) = (fraction, exponent ++ rest) := by
  have hdigit : (exponent ++ rest).head?.any Char.isDigit = false :=
    head?_fraction (Or.inl rfl) hexponent hrest
  rcases hfraction with rfl | ⟨digits, rfl, hdigits⟩
  · have hpoint : (exponent ++ rest).head?.any (· = '.') = false := by
      refine head?_exponent hexponent hrest (fun c hc => ?_) ?_
      · rw [decide_eq_true_eq] at hc
        rw [hc]
        decide
      · intro c hc
        rw [decide_eq_false_iff_not]
        rintro rfl
        exact absurd hc (by decide)
    rw [List.nil_append, spanFraction]
    intro others hothers
    rw [hothers] at hpoint
    exact absurd hpoint (by simp)
  · simp only [List.cons_append, spanFraction, spanDigits_append hdigits hdigit]
    rw [if_neg]
    simpa using (isDigits_iff.mp hdigits).1

theorem spanExponentSign_append (hsign : IsExponentSign sign) (hwhole : isDigits whole = true) :
    spanExponentSign (sign ++ (whole ++ rest)) = (sign, whole ++ rest) := by
  obtain ⟨c, others, rfl, hc⟩ := isDigits_cons hwhole
  rcases hsign with rfl | rfl | rfl
  · have hminus : c ≠ '-' := ne_of_isDigit hc
    have hplus : c ≠ '+' := ne_of_isDigit hc
    simp only [List.nil_append, List.cons_append, spanExponentSign]
    split
    · rename_i heq
      exact absurd (List.cons.inj heq).1 hminus
    · rename_i heq
      exact absurd (List.cons.inj heq).1 hplus
    · rfl
  · rfl
  · rfl

theorem isNameContinue_of_isExponentMark {c : Char} (h : isExponentMark c = true) :
    isNameContinue c = true := by
  simp only [isExponentMark, Bool.or_eq_true, decide_eq_true_eq] at h
  rcases h with rfl | rfl <;> decide

theorem spanExponent_append (hexponent : IsExponentPart exponent) (hrest : continuesName rest = false) :
    spanExponent (exponent ++ rest) = (exponent, rest) := by
  rcases hexponent with rfl | ⟨mark, sign, digits, rfl, hmark, hsign, hdigits⟩
  · cases rest with
    | nil => rfl
    | cons c rest =>
        have hc : isExponentMark c = false := by
          have := head?_any_of_not_continuesName hrest (fun c hc => isNameContinue_of_isExponentMark hc)
          simpa using this
        simp [spanExponent, hc]
  · have hdigit : rest.head?.any Char.isDigit = false :=
      head?_any_of_not_continuesName hrest (fun c hc => isNameContinue_of_isDigit hc)
    simp only [List.cons_append, spanExponent, hmark, if_true, List.append_assoc,
      spanExponentSign_append hsign hdigits, spanDigits_append hdigits hdigit]
    rw [if_neg]
    simpa using (isDigits_iff.mp hdigits).1

/-- The scanner takes a written number up to where it ends. -/
theorem spanNumber_append {text : Text} (h : Written text) (hrest : continuesName rest = false) :
    spanNumber (text ++ rest) = (text, rest) := by
  obtain ⟨hsign, hwhole, hfraction, hexponent⟩ := h
  simp only [List.append_assoc, spanNumber, spanSign_append hsign hwhole,
    spanDigits_append hwhole (head?_fraction hfraction hexponent hrest),
    spanFraction_append hfraction hexponent hrest, spanExponent_append hexponent hrest]

theorem spanSign_spec (text : Text) :
    IsSign (spanSign text).1 ∧ (spanSign text).2 = unsigned text ∧
      text = (spanSign text).1 ++ (spanSign text).2 := by
  cases text with
  | nil => exact ⟨Or.inl rfl, rfl, rfl⟩
  | cons c rest =>
      by_cases hc : c = '-'
      · subst hc
        exact ⟨Or.inr rfl, rfl, rfl⟩
      · have hspan : spanSign (c :: rest) = ([], c :: rest) := by simp [spanSign, hc]
        have hunsigned : unsigned (c :: rest) = c :: rest := by simp [unsigned, hc]
        rw [hspan, hunsigned]
        exact ⟨Or.inl rfl, rfl, rfl⟩

theorem spanFraction_spec (text : Text) : IsFraction (spanFraction text).1 ∧
    text = (spanFraction text).1 ++ (spanFraction text).2 := by
  unfold spanFraction
  split
  · rename_i rest
    by_cases hempty : (spanDigits rest).1.isEmpty = true
    · simp only [hempty, if_true]
      exact ⟨Or.inl rfl, rfl⟩
    · simp only [hempty, if_false, Bool.false_eq_true]
      refine ⟨Or.inr ⟨_, rfl, ?_⟩, ?_⟩
      · rw [isDigits_iff]
        exact ⟨by simpa using hempty, List.all_takeWhile⟩
      · rw [List.cons_append, spanDigits, List.takeWhile_append_dropWhile]
  · exact ⟨Or.inl rfl, rfl⟩

theorem spanExponentSign_spec (text : Text) : IsExponentSign (spanExponentSign text).1 ∧
    text = (spanExponentSign text).1 ++ (spanExponentSign text).2 := by
  unfold spanExponentSign
  split
  · exact ⟨Or.inr (Or.inr rfl), rfl⟩
  · exact ⟨Or.inr (Or.inl rfl), rfl⟩
  · exact ⟨Or.inl rfl, rfl⟩

theorem spanExponent_spec (text : Text) : IsExponentPart (spanExponent text).1 ∧
    text = (spanExponent text).1 ++ (spanExponent text).2 := by
  unfold spanExponent
  split
  · rename_i mark rest
    by_cases hmark : isExponentMark mark = true
    · obtain ⟨hsign, hrest⟩ := spanExponentSign_spec rest
      by_cases hempty : (spanDigits (spanExponentSign rest).2).1.isEmpty = true
      · simp only [hmark, hempty, if_true]
        exact ⟨Or.inl rfl, rfl⟩
      · simp only [hmark, hempty, if_true, if_false, Bool.false_eq_true]
        refine ⟨Or.inr ⟨mark, _, _, rfl, hmark, hsign, ?_⟩, ?_⟩
        · rw [isDigits_iff]
          exact ⟨by simpa using hempty, List.all_takeWhile⟩
        · rw [List.append_assoc, List.cons_append, spanDigits, List.takeWhile_append_dropWhile,
            ← hrest]
    · simp only [hmark, if_false, Bool.false_eq_true]
      exact ⟨Or.inl rfl, rfl⟩
  · exact ⟨Or.inl rfl, rfl⟩

/-- What the scanner takes from a text that begins like a number is a written number. -/
theorem spanNumber_spec {text : Text} (h : (unsigned text).head?.any Char.isDigit = true) :
    Written (spanNumber text).1 ∧ text = (spanNumber text).1 ++ (spanNumber text).2 := by
  obtain ⟨hsign, hunsigned, htext⟩ := spanSign_spec text
  obtain ⟨hfraction, hafter⟩ := spanFraction_spec (spanDigits (spanSign text).2).2
  obtain ⟨hexponent, hend⟩ := spanExponent_spec (spanFraction (spanDigits (spanSign text).2).2).2
  have hwhole : isDigits (spanDigits (spanSign text).2).1 = true := by
    rw [isDigits_iff]
    refine ⟨?_, List.all_takeWhile⟩
    rw [hunsigned, spanDigits]
    cases hbody : unsigned text with
    | nil => simp [hbody] at h
    | cons c rest =>
        rw [hbody, List.head?_cons, Option.any_some] at h
        rw [List.takeWhile_cons_of_pos h]
        exact List.cons_ne_nil _ _
  refine ⟨Written.mk hsign hwhole hfraction hexponent, ?_⟩
  calc text = (spanSign text).1 ++ (spanSign text).2 := htext
    _ = (spanSign text).1 ++ ((spanDigits (spanSign text).2).1 ++ (spanDigits (spanSign text).2).2) := by
        rw [spanDigits, List.takeWhile_append_dropWhile]
    _ = (spanNumber text).1 ++ (spanNumber text).2 := by
        rw [hafter, hend]
        simp only [spanNumber, List.append_assoc, ← hend, ← hafter]

end Scanning

/-! ### The checks on a whole text -/

theorem unsigned_append {sign body : Text} (hsign : IsSign sign)
    (hbody : body.head?.any Char.isDigit = true) : unsigned (sign ++ body) = body := by
  cases body with
  | nil => simp at hbody
  | cons c rest =>
      have hne : c ≠ '-' := ne_of_isDigit (by simpa using hbody)
      rcases hsign with rfl | rfl
      · simp only [List.nil_append, unsigned]
        split
        · rename_i heq
          exact absurd (List.cons.inj heq).1 hne
        · rfl
      · rfl

theorem isExponent_iff {text : Text} : isExponent text = true ↔
    ∃ sign digits, text = sign ++ digits ∧ IsExponentSign sign ∧ isDigits digits = true := by
  constructor
  · intro h
    unfold isExponent at h
    split at h
    · exact ⟨['+'], _, rfl, Or.inr (Or.inl rfl), h⟩
    · exact ⟨['-'], _, rfl, Or.inr (Or.inr rfl), h⟩
    · exact ⟨[], _, rfl, Or.inl rfl, h⟩
  · rintro ⟨sign, digits, rfl, rfl | rfl | rfl, hdigits⟩
    · obtain ⟨c, rest, rfl, hc⟩ := isDigits_cons hdigits
      have hminus : c ≠ '-' := ne_of_isDigit hc
      have hplus : c ≠ '+' := ne_of_isDigit hc
      rw [List.nil_append]
      unfold isExponent
      split
      · rename_i heq
        exact absurd (List.cons.inj heq).1 hplus
      · rename_i heq
        exact absurd (List.cons.inj heq).1 hminus
      · exact hdigits
    · exact hdigits
    · exact hdigits

theorem not_mem_digits {digits : Text} (h : isDigits digits = true) : '.' ∉ digits := by
  intro hmem
  exact absurd (List.all_eq_true.mp (isDigits_iff.mp h).2 '.' hmem) (by decide)

/-- What comes before an exponent holds no mark of one. -/
theorem all_not_mark {whole fraction : Text} (hwhole : isDigits whole = true)
    (hfraction : IsFraction fraction) : (whole ++ fraction).all (!isExponentMark ·) = true := by
  have hdigits : ∀ {digits : Text}, isDigits digits = true → digits.all (!isExponentMark ·) = true := by
    intro digits h
    rw [List.all_eq_true]
    intro c hc
    rw [not_exponentMark_of_isDigit (List.all_eq_true.mp (isDigits_iff.mp h).2 c hc)]
    rfl
  rw [List.all_append, hdigits hwhole, Bool.true_and]
  rcases hfraction with rfl | ⟨digits, rfl, h⟩
  · rfl
  · rw [List.all_cons, hdigits h]
    rfl

theorem isDecimal_of_parts {sign whole fraction exponent : Text} (hsign : IsSign sign)
    (hwhole : isDigits whole = true) (hfraction : IsFraction fraction)
    (hexponent : IsExponentPart exponent) (hparts : fraction ≠ [] ∨ exponent ≠ []) :
    isDecimal (sign ++ ((whole ++ fraction) ++ exponent)) = true := by
  have hhead : ((whole ++ fraction) ++ exponent).head?.any Char.isDigit = true := by
    obtain ⟨c, rest, rfl, hc⟩ := isDigits_cons hwhole
    exact hc
  have hmark : exponent.head?.any (!isExponentMark ·) = false := by
    rcases hexponent with rfl | ⟨mark, _, _, rfl, h, -⟩
    · rfl
    · simpa using h
  have hall := all_not_mark hwhole hfraction
  simp only [isDecimal, unsigned_append hsign hhead, takeWhile_run hall hmark,
    dropWhile_run hall hmark, Bool.and_eq_true]
  refine ⟨?_, ?_⟩
  · rcases hfraction with rfl | ⟨digits, rfl, hdigits⟩
    · rw [List.append_nil, cutAt?_eq_none_iff.mpr (not_mem_digits hwhole)]
      rcases hexponent with rfl | ⟨mark, _, _, rfl, -⟩
      · exact absurd rfl (hparts.resolve_left (by simp))
      · simpa using hwhole
    · simp only [cutAt?_append (not_mem_digits hwhole), hwhole, hdigits, Bool.and_self]
  · rcases hexponent with rfl | ⟨mark, sign, digits, rfl, -, hs, hd⟩
    · rfl
    · rw [List.tail?_cons, Option.all_some]
      exact isExponent_iff.mpr ⟨sign, digits, rfl, hs, hd⟩

/-- The written numbers are those that the checks accept. -/
theorem written_iff {text : Text} :
    Written text ↔ isInteger text = true ∨ isDecimal text = true := by
  constructor
  · rintro ⟨hsign, hwhole, hfraction, hexponent⟩
    rename_i sign whole fraction exponent
    by_cases hparts : fraction = [] ∧ exponent = []
    · obtain ⟨rfl, rfl⟩ := hparts
      left
      obtain ⟨c, rest, rfl, hc⟩ := isDigits_cons hwhole
      rw [List.append_nil, List.append_nil, isInteger, unsigned_append hsign (by simpa using hc)]
      exact hwhole
    · right
      rw [List.append_assoc, List.append_assoc, ← List.append_assoc whole]
      refine isDecimal_of_parts hsign hwhole hfraction hexponent ?_
      by_cases hf : fraction = []
      · exact Or.inr fun he => hparts ⟨hf, he⟩
      · exact Or.inl hf
  · obtain ⟨hsign, hunsigned, htext⟩ := spanSign_spec text
    rw [hunsigned] at htext
    rintro (h | h)
    · have hwritten := Written.mk hsign h (Or.inl rfl) (Or.inl rfl)
      rwa [List.append_nil, List.append_nil, ← htext] at hwritten
    · simp only [isDecimal, Bool.and_eq_true] at h
      obtain ⟨hmantissa, hexponent⟩ := h
      have hbody := List.takeWhile_append_dropWhile (p := (!isExponentMark ·)) (l := unsigned text)
      have hpart : IsExponentPart ((unsigned text).dropWhile (!isExponentMark ·)) := by
        cases hdrop : (unsigned text).dropWhile (!isExponentMark ·) with
        | nil => exact Or.inl rfl
        | cons mark rest =>
            have hmark := head?_dropWhile (!isExponentMark ·) (unsigned text)
            rw [hdrop] at hmark hexponent
            obtain ⟨sign, digits, rfl, hs, hd⟩ := isExponent_iff.mp (by simpa using hexponent)
            exact Or.inr ⟨mark, sign, digits, rfl, by simpa using hmark, hs, hd⟩
      split at hmantissa
      · rename_i whole fraction hcut
        obtain ⟨hmant, -⟩ := eq_of_cutAt?_eq_some hcut
        rw [Bool.and_eq_true] at hmantissa
        have hwritten := Written.mk hsign hmantissa.1 (Or.inr ⟨fraction, rfl, hmantissa.2⟩) hpart
        rwa [List.append_assoc, List.append_assoc, ← List.append_assoc whole, ← hmant, hbody,
          ← htext] at hwritten
      · rw [Bool.and_eq_true] at hmantissa
        have hwritten := Written.mk hsign hmantissa.2 (Or.inl rfl) hpart
        rwa [List.append_nil, List.append_assoc, hbody, ← htext] at hwritten

end Number

end ODataRequest
