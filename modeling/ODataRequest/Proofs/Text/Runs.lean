import Mathlib.Data.List.DropRight
import ODataRequest.Text.Basic

/-! Runs of characters of one class at the beginning of a text, and the blanks around a text. A text
splits into its leading blanks, its trimmed form and its trailing blanks, and trimming again changes
nothing. -/

namespace ODataRequest.Text

open Unicode

section Runs

variable {p : Char → Bool} {run rest : Text}

theorem takeWhile_run (hrun : run.all p = true) (hrest : rest.head?.any p = false) :
    (run ++ rest).takeWhile p = run := by
  rw [List.takeWhile_append_of_pos (List.all_eq_true.mp hrun)]
  cases rest with
  | nil => simp
  | cons c rest =>
      rw [List.takeWhile_cons_of_neg (by simpa using hrest), List.append_nil]

theorem dropWhile_run (hrun : run.all p = true) (hrest : rest.head?.any p = false) :
    (run ++ rest).dropWhile p = rest := by
  rw [List.dropWhile_append_of_pos (List.all_eq_true.mp hrun)]
  cases rest with
  | nil => rfl
  | cons c rest => rw [List.dropWhile_cons_of_neg (by simpa using hrest)]

theorem head?_dropWhile (p : Char → Bool) (text : Text) : (text.dropWhile p).head?.any p = false := by
  have h := List.head?_dropWhile_not p text
  cases hd : (text.dropWhile p).head? with
  | none => rfl
  | some c =>
      rw [hd] at h
      simpa using h

end Runs

/-- The first occurrence of a character is where a text without it ends. -/
theorem cutAt?_append {separator : Char} {before after : Text} (h : separator ∉ before) :
    cutAt? separator (before ++ separator :: after) = some (before, after) := by
  induction before with
  | nil => simp [cutAt?]
  | cons c before ih =>
      rw [List.mem_cons, not_or] at h
      rw [List.cons_append, cutAt?, if_neg (Ne.symm h.1), ih h.2]
      rfl

theorem trimStart_of_blanks {blanks : Text} (h : blanks.all isWhiteSpace = true) (text : Text) :
    trimStart (blanks ++ text) = trimStart text :=
  List.dropWhile_append_of_pos (List.all_eq_true.mp h)

theorem trimEnd_of_blanks {blanks : Text} (h : blanks.all isWhiteSpace = true) (text : Text) :
    trimEnd (text ++ blanks) = trimEnd text := by
  have hreverse : trimStart (blanks.reverse ++ text.reverse) = trimStart text.reverse :=
    trimStart_of_blanks (by rwa [List.all_reverse]) text.reverse
  rw [trimEnd, trimEnd, List.reverse_append, ← trimStart, hreverse, trimStart]

theorem trimStart_of_not_blank {text : Text} (h : text.head?.any isWhiteSpace = false) :
    trimStart text = text := by
  cases text with
  | nil => rfl
  | cons c text => exact List.dropWhile_cons_of_neg (by simpa using h)

theorem trimEnd_of_not_blank {text : Text} (h : text.getLast?.any isWhiteSpace = false) :
    trimEnd text = text := by
  have hreverse : trimStart text.reverse = text.reverse :=
    trimStart_of_not_blank (by rwa [List.head?_reverse])
  rw [trimEnd, ← trimStart, hreverse, List.reverse_reverse]

/-- Neither end of a trimmed text is blank. -/
theorem head?_trimStart (text : Text) : (trimStart text).head?.any isWhiteSpace = false :=
  head?_dropWhile isWhiteSpace text

theorem getLast?_trimEnd (text : Text) : (trimEnd text).getLast?.any isWhiteSpace = false := by
  rw [trimEnd, List.getLast?_reverse]
  exact head?_dropWhile isWhiteSpace text.reverse

/-- Leading blanks go and nothing else. -/
theorem trimStart_decompose (text : Text) :
    ∃ blanks, text = blanks ++ trimStart text ∧ blanks.all isWhiteSpace = true :=
  ⟨text.takeWhile isWhiteSpace, List.takeWhile_append_dropWhile.symm, List.all_takeWhile⟩

theorem trimEnd_decompose (text : Text) :
    ∃ blanks, text = trimEnd text ++ blanks ∧ blanks.all isWhiteSpace = true := by
  obtain ⟨blanks, htext, hblanks⟩ := trimStart_decompose text.reverse
  refine ⟨blanks.reverse, ?_, by simpa using hblanks⟩
  rw [trimEnd, ← trimStart, ← List.reverse_append, ← htext, List.reverse_reverse]

/-- Blanks at either end go and nothing else. -/
theorem trim_decompose (text : Text) : ∃ before after, text = before ++ trim text ++ after ∧
    before.all isWhiteSpace = true ∧ after.all isWhiteSpace = true := by
  obtain ⟨before, hbefore, hb⟩ := trimStart_decompose text
  obtain ⟨after, hafter, ha⟩ := trimEnd_decompose (trimStart text)
  refine ⟨before, after, ?_, hb, ha⟩
  rw [trim, List.append_assoc, ← hafter, ← hbefore]

/-- Trimming the end leaves the beginning as it is. -/
theorem head?_trim (text : Text) : (trim text).head?.any isWhiteSpace = false := by
  obtain ⟨after, hafter, -⟩ := trimEnd_decompose (trimStart text)
  have hhead := head?_trimStart text
  rw [trim]
  cases htrim : trimEnd (trimStart text) with
  | nil => rfl
  | cons c others =>
      rw [hafter, htrim] at hhead
      simpa using hhead

theorem trim_of_ends {text : Text} (hhead : text.head?.any isWhiteSpace = false)
    (hlast : text.getLast?.any isWhiteSpace = false) : trim text = text := by
  rw [trim, trimStart_of_not_blank hhead, trimEnd_of_not_blank hlast]

/-- Trimming again changes nothing. -/
theorem trim_trim (text : Text) : trim (trim text) = trim text :=
  trim_of_ends (head?_trim text) (getLast?_trimEnd (trimStart text))

/-- Blanks around a text that has none at its ends are trimmed away. -/
theorem trim_between {before text after : Text} (hbefore : before.all isWhiteSpace = true)
    (hafter : after.all isWhiteSpace = true) (hnonempty : text ≠ []) (h : trim text = text) :
    trim (before ++ text ++ after) = text := by
  have hstart : (text ++ after).head?.any isWhiteSpace = false := by
    rw [List.head?_append_of_ne_nil text hnonempty, ← h]
    exact head?_trim text
  have htext : text.head?.any isWhiteSpace = false := by
    rw [← h]
    exact head?_trim text
  rw [List.append_assoc, trim, trimStart_of_blanks hbefore, trimStart_of_not_blank hstart,
    trimEnd_of_blanks hafter]
  rwa [trim, trimStart_of_not_blank htext] at h

theorem trim_of_blank {blanks : Text} (h : blanks.all isWhiteSpace = true) : trim blanks = [] := by
  have hstart := trimStart_of_blanks h []
  rw [List.append_nil] at hstart
  rw [trim, hstart]
  rfl

/-- Further blanks around a text are trimmed away with its own. -/
theorem trim_of_blanks {before after : Text} (hbefore : before.all isWhiteSpace = true)
    (hafter : after.all isWhiteSpace = true) (text : Text) :
    trim (before ++ (text ++ after)) = trim text := by
  obtain ⟨front, back, htext, hfront, hback⟩ := trim_decompose text
  by_cases hblank : trim text = []
  · rw [hblank, List.append_nil] at htext
    rw [hblank, htext]
    apply trim_of_blank
    simp only [List.all_append, hbefore, hfront, hback, hafter, Bool.and_self]
  · have hwhole : before ++ (text ++ after) = before ++ front ++ trim text ++ (back ++ after) := by
      conv_lhs => rw [htext]
      simp only [List.append_assoc]
    rw [hwhole]
    refine trim_between ?_ ?_ hblank (trim_trim text)
    · rw [List.all_append, hbefore, hfront, Bool.and_self]
    · rw [List.all_append, hback, hafter, Bool.and_self]

theorem all_blank_of_trimStart_eq_nil {text : Text} (h : trimStart text = []) :
    text.all isWhiteSpace = true := by
  obtain ⟨blanks, htext, hblanks⟩ := trimStart_decompose text
  rw [h, List.append_nil] at htext
  rwa [htext]

/-- A character that is not blank is not trimmed away. -/
theorem trim_ne_nil {text : Text} {c : Char} (hmem : c ∈ text) (hc : isWhiteSpace c = false) :
    trim text ≠ [] := by
  obtain ⟨before, after, htext, hbefore, hafter⟩ := trim_decompose text
  intro htrim
  rw [htrim, List.append_nil] at htext
  rw [htext] at hmem
  rcases List.mem_append.mp hmem with hmem | hmem
  · rw [List.all_eq_true.mp hbefore c hmem] at hc
    cases hc
  · rw [List.all_eq_true.mp hafter c hmem] at hc
    cases hc

end ODataRequest.Text
