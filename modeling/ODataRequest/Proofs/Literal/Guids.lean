import ODataRequest.Literal.Basic
import ODataRequest.Proofs.Text.Characters
import ODataRequest.Proofs.Text.Fields
import ODataRequest.Proofs.Text.Runs

/-! Globally unique identifiers as texts: thirty-six characters, four of them hyphens and the others
hexadecimal digits. The form in lower case is one too, and is its own lower case. -/

namespace ODataRequest

open Text Unicode

theorem isHexDigit_iff {c : Char} : isHexDigit c = true ↔
    (0x30 ≤ c.toNat ∧ c.toNat ≤ 0x39) ∨ (0x61 ≤ c.toNat ∧ c.toNat ≤ 0x66) ∨
      (0x41 ≤ c.toNat ∧ c.toNat ≤ 0x46) := by
  simp only [isHexDigit, Bool.or_eq_true, Bool.and_eq_true, decide_eq_true_eq, le_iff_toNat_le,
    isDigit_iff, or_assoc]
  exact Iff.rfl

theorem isHexDigit_toLower {c : Char} (h : isHexDigit c = true) : isHexDigit c.toLower = true := by
  rw [isHexDigit_iff] at h ⊢
  rw [toNat_toLower]
  split <;> omega

theorem toLower_eq_hyphen_iff (c : Char) : c.toLower = '-' ↔ c = '-' := by
  rw [← Char.toNat_inj, ← Char.toNat_inj, toNat_toLower]
  have hhyphen : '-'.toNat = 0x2D := rfl
  split <;> omega

theorem isGuid_iff {text : Text} : isGuid text = true ↔
    (fields '-' text).map List.length = Guid.groupSizes ∧
      ∀ group ∈ fields '-' text, group.all isHexDigit = true := by
  simp only [isGuid, Bool.and_eq_true, beq_iff_eq, List.all_eq_true]

/-- Four hyphens stand in an identifier. -/
theorem count_hyphen_of_isGuid {text : Text} (h : isGuid text = true) : text.count '-' = 4 := by
  have hlength := congrArg List.length (isGuid_iff.mp h).1
  rw [List.length_map, fields_length] at hlength
  simpa [Guid.groupSizes] using hlength

theorem length_of_isGuid {text : Text} (h : isGuid text = true) : text.length = Guid.length := by
  rw [← flatten_fields_length '-' text, count_hyphen_of_isGuid h, List.length_flatten,
    (isGuid_iff.mp h).1]
  rfl

theorem mem_of_isGuid {text : Text} (h : isGuid text = true) {c : Char} (hc : c ∈ text) :
    isHexDigit c = true ∨ c = '-' := by
  rcases mem_fields '-' hc with rfl | ⟨group, hgroup, hmem⟩
  · exact Or.inr rfl
  · exact Or.inl (List.all_eq_true.mp ((isGuid_iff.mp h).2 group hgroup) c hmem)

/-- An identifier begins with a digit of its first group. -/
theorem head_of_isGuid {text : Text} (h : isGuid text = true) :
    ∃ c rest, text = c :: rest ∧ isHexDigit c = true := by
  cases text with
  | nil => exact absurd h (by decide)
  | cons c rest =>
      refine ⟨c, rest, rfl, (mem_of_isGuid h List.mem_cons_self).resolve_right ?_⟩
      rintro rfl
      have hsizes := (isGuid_iff.mp h).1
      rw [fields, if_pos rfl, List.map_cons, Guid.groupSizes] at hsizes
      exact absurd (List.cons.inj hsizes).1 (by decide)

/-- An identifier ends with a digit of its last group. -/
theorem last_of_isGuid {front : Text} {c : Char} (h : isGuid (front ++ [c]) = true) :
    isHexDigit c = true := by
  refine (mem_of_isGuid h (List.mem_append_right front List.mem_cons_self)).resolve_right ?_
  rintro rfl
  have hsizes := congrArg List.getLast? (isGuid_iff.mp h).1
  rw [fields_append_separator, List.map_append, List.map_singleton, List.getLast?_concat] at hsizes
  exact absurd hsizes (by decide)

/-- The lower case of an identifier is an identifier. -/
theorem isGuid_toLower {text : Text} (h : isGuid text = true) :
    isGuid (text.map Char.toLower) = true := by
  rw [isGuid_iff] at h ⊢
  rw [fields_map toLower_eq_hyphen_iff, List.map_map]
  refine ⟨?_, ?_⟩
  · rw [← h.1]
    exact List.map_congr_left fun group _ => List.length_map Char.toLower
  · intro group hgroup
    obtain ⟨original, horiginal, rfl⟩ := List.mem_map.mp hgroup
    rw [List.all_eq_true]
    intro c hc
    obtain ⟨d, hd, rfl⟩ := List.mem_map.mp hc
    exact isHexDigit_toLower (List.all_eq_true.mp (h.2 original horiginal) d hd)

end ODataRequest
