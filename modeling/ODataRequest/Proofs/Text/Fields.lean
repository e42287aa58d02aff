import ODataRequest.Text.Basic

/-! Texts between separators. The fields of a text lose nothing of it but the separators, and texts
without the separator are the fields of their join. -/

namespace ODataRequest.Text

theorem flatten_fields_length (separator : Char) (text : Text) :
    (fields separator text).flatten.length + text.count separator = text.length := by
  induction text with
  | nil => rfl
  | cons c rest ih =>
      by_cases hc : c = separator
      · rw [fields, if_pos hc, List.flatten_cons, List.nil_append, hc, List.count_cons_self,
          List.length_cons, ← ih]
        omega
      · rw [fields, if_neg hc, List.count_cons_of_ne hc, List.length_cons, ← ih]
        cases hf : fields separator rest with
        | nil => exact absurd hf (fields_ne_nil separator rest)
        | cons field others =>
            simp only [List.modifyHead_cons, List.flatten_cons, List.length_append, List.length_cons]
            omega

theorem fields_length (separator : Char) (text : Text) :
    (fields separator text).length = text.count separator + 1 := by
  induction text with
  | nil => rfl
  | cons c rest ih =>
      by_cases hc : c = separator
      · rw [fields, if_pos hc, List.length_cons, ih, hc, List.count_cons_self]
      · rw [fields, if_neg hc, List.length_modifyHead, ih, List.count_cons_of_ne hc]

/-- A character of a text separates fields or belongs to one. -/
theorem mem_fields (separator : Char) {c : Char} {text : Text} (h : c ∈ text) :
    c = separator ∨ ∃ field ∈ fields separator text, c ∈ field := by
  induction text with
  | nil => cases h
  | cons d rest ih =>
      by_cases hd : d = separator
      · rw [fields, if_pos hd]
        rcases List.mem_cons.mp h with rfl | h
        · exact Or.inl hd
        · rcases ih h with rfl | ⟨field, hfield, hc⟩
          · exact Or.inl rfl
          · exact Or.inr ⟨field, List.mem_cons_of_mem _ hfield, hc⟩
      · rw [fields, if_neg hd]
        cases hf : fields separator rest with
        | nil => exact absurd hf (fields_ne_nil separator rest)
        | cons first others =>
            rw [hf] at ih
            rw [List.modifyHead_cons]
            rcases List.mem_cons.mp h with rfl | h
            · exact Or.inr ⟨_, List.mem_cons_self, List.mem_cons_self⟩
            · rcases ih h with rfl | ⟨field, hfield, hc⟩
              · exact Or.inl rfl
              · rcases List.mem_cons.mp hfield with rfl | hfield
                · exact Or.inr ⟨_, List.mem_cons_self, List.mem_cons_of_mem _ hc⟩
                · exact Or.inr ⟨field, List.mem_cons_of_mem _ hfield, hc⟩

/-- Fields of a text whose characters are changed one by one, where only the separator becomes the
separator. -/
theorem fields_map {separator : Char} {change : Char → Char}
    (hchange : ∀ c, change c = separator ↔ c = separator) (text : Text) :
    fields separator (text.map change) = (fields separator text).map (List.map change) := by
  induction text with
  | nil => rfl
  | cons c rest ih =>
      by_cases hc : c = separator
      · rw [List.map_cons, fields, fields, if_pos hc, if_pos ((hchange c).mpr hc), ih,
          List.map_cons, List.map_nil]
      · rw [List.map_cons, fields, fields, if_neg hc, if_neg (fun h => hc ((hchange c).mp h)), ih]
        cases fields separator rest with
        | nil => rfl
        | cons field others => rfl

/-- A separator at the end leaves an empty field after it. -/
theorem fields_append_separator (separator : Char) (text : Text) :
    fields separator (text ++ [separator]) = fields separator text ++ [[]] := by
  induction text with
  | nil =>
      show fields separator [separator] = _
      rw [fields.eq_def]
      exact if_pos rfl
  | cons c rest ih =>
      rw [List.cons_append, fields, fields, ih]
      by_cases hc : c = separator
      · rw [if_pos hc, if_pos hc]
        rfl
      · rw [if_neg hc, if_neg hc]
        cases hf : fields separator rest with
        | nil => exact absurd hf (fields_ne_nil separator rest)
        | cons field others => rfl

theorem fields_of_not_mem {separator : Char} {text : Text} (h : separator ∉ text) :
    fields separator text = [text] := by
  induction text with
  | nil => rfl
  | cons c text ih =>
      rw [List.mem_cons, not_or] at h
      rw [fields, if_neg (Ne.symm h.1), ih h.2]
      rfl

theorem fields_append {separator : Char} {first : Text} (h : separator ∉ first) (rest : Text) :
    fields separator (first ++ separator :: rest) = first :: fields separator rest := by
  induction first with
  | nil => rw [List.nil_append, fields, if_pos rfl]
  | cons c first ih =>
      rw [List.mem_cons, not_or] at h
      rw [List.cons_append, fields, if_neg (Ne.symm h.1), ih h.2]
      rfl

/-- Texts without the separator are the fields of their join. -/
theorem fields_intercalate {separator : Char} {parts : List Text} (hnonempty : parts ≠ [])
    (h : ∀ part ∈ parts, separator ∉ part) :
    fields separator ([separator].intercalate parts) = parts := by
  induction parts with
  | nil => exact absurd rfl hnonempty
  | cons first parts ih =>
      obtain ⟨hfirst, hothers⟩ := List.forall_mem_cons.mp h
      cases parts with
      | nil => rw [List.intercalate_singleton, fields_of_not_mem hfirst]
      | cons second others =>
          rw [List.intercalate_cons_cons, List.append_assoc, List.singleton_append,
            fields_append hfirst, ih (List.cons_ne_nil second others) hothers]

theorem intercalate_concat_nil {separator : Char} {parts : List Text} (h : parts ≠ []) :
    [separator].intercalate (parts ++ [[]]) = [separator].intercalate parts ++ [separator] := by
  induction parts with
  | nil => exact absurd rfl h
  | cons first parts ih =>
      cases parts with
      | nil =>
          rw [List.singleton_append, List.intercalate_cons_cons, List.intercalate_singleton,
            List.intercalate_singleton, List.append_nil]
      | cons second others =>
          have hothers := ih (List.cons_ne_nil second others)
          rw [List.cons_append] at hothers
          rw [List.cons_append, List.cons_append, List.intercalate_cons_cons, hothers,
            List.intercalate_cons_cons, List.append_assoc, List.append_assoc, List.append_assoc]

/-- A character of a join is the separator or belongs to a part. -/
theorem mem_intercalate {separator c : Char} {parts : List Text} (h : c ∈ [separator].intercalate parts) :
    c = separator ∨ ∃ part ∈ parts, c ∈ part := by
  induction parts with
  | nil => cases h
  | cons first parts ih =>
      cases parts with
      | nil =>
          rw [List.intercalate_singleton] at h
          exact Or.inr ⟨first, List.mem_cons_self, h⟩
      | cons second others =>
          rw [List.intercalate_cons_cons, List.append_assoc, List.singleton_append, List.mem_append,
            List.mem_cons] at h
          rcases h with h | h | h
          · exact Or.inr ⟨first, List.mem_cons_self, h⟩
          · exact Or.inl h
          · rcases ih h with h | ⟨part, hpart, hc⟩
            · exact Or.inl h
            · exact Or.inr ⟨part, List.mem_cons_of_mem _ hpart, hc⟩

end ODataRequest.Text
