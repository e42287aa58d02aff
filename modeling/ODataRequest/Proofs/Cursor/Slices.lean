import ODataRequest.Proofs.Text.Runs

/-! Byte offsets in texts. An offset counts bytes from the beginning of a text, and is a boundary where a
character begins or the text ends. A slice is taken between two offsets, and there is none unless they are
boundaries in order; then it is the text between them. -/

namespace ODataRequest

open Text Unicode

namespace Text

def IsBoundary (text : Text) (offset : Nat) : Prop :=
  ∃ before after, text = before ++ after ∧ offset = utf8Length before

/-- Two boundaries with nothing but white space between them. -/
def IsBlank (text : Text) (start stop : Nat) : Prop :=
  ∃ before blanks after, text = before ++ (blanks ++ after) ∧ blanks.all isWhiteSpace = true ∧
    start = utf8Length before ∧ stop = utf8Length before + utf8Length blanks

/-- The text from a byte offset on, none if that is no boundary. -/
def from? : Text → Nat → Option Text
  | text, 0 => some text
  | [], _ + 1 => none
  | c :: rest, offset + 1 =>
    if c.utf8Size ≤ offset + 1 then from? rest (offset + 1 - c.utf8Size) else none

/-- The text before a byte offset, none if that is no boundary. -/
def upTo? : Text → Nat → Option Text
  | _, 0 => some []
  | [], _ + 1 => none
  | c :: rest, offset + 1 =>
    if c.utf8Size ≤ offset + 1 then (upTo? rest (offset + 1 - c.utf8Size)).map (c :: ·) else none

/-- The text between two byte offsets, none unless they are boundaries in order. -/
def slice? (text : Text) (start stop : Nat) : Option Text :=
  if start ≤ stop then (text.from? start).bind (·.upTo? (stop - start)) else none

/-- The byte offset in a source at which an end of it begins. -/
def offsetOf (source unread : Text) : Nat :=
  utf8Length source - utf8Length unread

variable {source text before word rest : Text} {start stop : Nat}

theorem from?_eq_some_iff :
    text.from? start = some rest ↔ ∃ before, text = before ++ rest ∧ start = utf8Length before := by
  fun_induction from? text start with
  | case1 text =>
      constructor
      · rintro ⟨⟩
        exact ⟨[], rfl, rfl⟩
      · rintro ⟨before, rfl, hbefore⟩
        cases before with
        | nil => rfl
        | cons c others =>
            have := c.utf8Size_pos
            rw [utf8Length_cons] at hbefore
            omega
  | case2 offset =>
      refine ⟨nofun, ?_⟩
      rintro ⟨before, hbefore, hoffset⟩
      rw [(List.append_eq_nil_iff.mp hbefore.symm).1] at hoffset
      cases hoffset
  | case3 c others offset hsize ih =>
      constructor
      · intro h
        obtain ⟨before, rfl, hbefore⟩ := ih.mp h
        refine ⟨c :: before, rfl, ?_⟩
        rw [utf8Length_cons, ← hbefore, Nat.add_sub_cancel' hsize]
      · rintro ⟨before, hbefore, hoffset⟩
        cases before with
        | nil => cases hoffset
        | cons d before =>
            obtain ⟨rfl, rfl⟩ := List.cons.inj hbefore
            exact ih.mpr ⟨before, rfl, Nat.sub_eq_of_eq_add' hoffset⟩
  | case4 c others offset hsize =>
      refine ⟨nofun, ?_⟩
      rintro ⟨before, hbefore, hoffset⟩
      cases before with
      | nil => cases hoffset
      | cons d before =>
          obtain ⟨rfl, rfl⟩ := List.cons.inj hbefore
          rw [utf8Length_cons] at hoffset
          omega

theorem upTo?_eq_some_iff :
    text.upTo? stop = some word ↔ ∃ rest, text = word ++ rest ∧ stop = utf8Length word := by
  fun_induction upTo? text stop generalizing word with
  | case1 text =>
      constructor
      · rintro ⟨⟩
        exact ⟨text, rfl, rfl⟩
      · rintro ⟨rest, rfl, hword⟩
        cases word with
        | nil => rfl
        | cons c others =>
            have := c.utf8Size_pos
            rw [utf8Length_cons] at hword
            omega
  | case2 offset =>
      refine ⟨nofun, ?_⟩
      rintro ⟨rest, hword, hoffset⟩
      rw [(List.append_eq_nil_iff.mp hword.symm).1] at hoffset
      cases hoffset
  | case3 c others offset hsize ih =>
      rw [Option.map_eq_some_iff]
      constructor
      · rintro ⟨word, hword, rfl⟩
        obtain ⟨rest, rfl, hoffset⟩ := ih.mp hword
        refine ⟨rest, rfl, ?_⟩
        rw [utf8Length_cons, ← hoffset, Nat.add_sub_cancel' hsize]
      · rintro ⟨rest, hword, hoffset⟩
        cases word with
        | nil => cases hoffset
        | cons d word =>
            obtain ⟨rfl, rfl⟩ := List.cons.inj hword
            exact ⟨word, ih.mpr ⟨rest, rfl, Nat.sub_eq_of_eq_add' hoffset⟩, rfl⟩
  | case4 c others offset hsize =>
      refine ⟨nofun, ?_⟩
      rintro ⟨rest, hword, hoffset⟩
      cases word with
      | nil => cases hoffset
      | cons d word =>
          obtain ⟨rfl, rfl⟩ := List.cons.inj hword
          rw [utf8Length_cons] at hoffset
          omega

/-- A slice is what stands between two boundaries. -/
theorem slice?_eq_some_iff : text.slice? start stop = some word ↔
    ∃ before rest, text = before ++ (word ++ rest) ∧ start = utf8Length before ∧
      stop = utf8Length before + utf8Length word := by
  rw [slice?]
  split
  · rename_i hle
    rw [Option.bind_eq_some_iff]
    constructor
    · rintro ⟨unread, hfrom, hupTo⟩
      obtain ⟨before, rfl, rfl⟩ := from?_eq_some_iff.mp hfrom
      obtain ⟨rest, rfl, hstop⟩ := upTo?_eq_some_iff.mp hupTo
      exact ⟨before, rest, rfl, rfl, by omega⟩
    · rintro ⟨before, rest, rfl, rfl, hstop⟩
      exact ⟨word ++ rest, from?_eq_some_iff.mpr ⟨before, rfl, rfl⟩,
        upTo?_eq_some_iff.mpr ⟨rest, rfl, by omega⟩⟩
  · rename_i hlt
    refine ⟨nofun, ?_⟩
    rintro ⟨before, rest, -, rfl, rfl⟩
    exact absurd (Nat.le_add_right _ _) hlt

theorem IsBoundary.le (h : text.IsBoundary start) : start ≤ utf8Length text := by
  obtain ⟨before, after, rfl, rfl⟩ := h
  rw [utf8Length_append]
  exact Nat.le_add_right _ _

/-- There is a slice exactly between two boundaries in order. -/
theorem exists_slice?_iff : (∃ word, text.slice? start stop = some word) ↔
    start ≤ stop ∧ text.IsBoundary start ∧ text.IsBoundary stop := by
  constructor
  · rintro ⟨word, hword⟩
    obtain ⟨before, rest, rfl, rfl, rfl⟩ := slice?_eq_some_iff.mp hword
    refine ⟨Nat.le_add_right _ _, ⟨before, word ++ rest, rfl, rfl⟩, before ++ word, rest, ?_, ?_⟩
    · rw [List.append_assoc]
    · rw [utf8Length_append]
  · rintro ⟨hle, ⟨before, after, rfl, rfl⟩, front, rest, hsplit, rfl⟩
    rcases List.append_eq_append_iff.mp hsplit with ⟨word, rfl, rfl⟩ | ⟨word, rfl, rfl⟩
    · exact ⟨word, slice?_eq_some_iff.mpr ⟨before, rest, rfl, rfl, utf8Length_append _ _⟩⟩
    · rw [utf8Length_append] at hle ⊢
      have hstop : utf8Length front = utf8Length front + utf8Length word + utf8Length [] := by
        rw [utf8Length_nil]
        omega
      exact ⟨[], slice?_eq_some_iff.mpr ⟨front ++ word, after, rfl, (utf8Length_append _ _).symm, by
        rw [utf8Length_append]
        exact hstop⟩⟩

/-! ### Offsets of what is unread -/

theorem utf8Length_pos (h : word ≠ []) : 0 < utf8Length word := by
  obtain ⟨c, rest, rfl⟩ := List.exists_cons_of_ne_nil h
  exact Nat.add_pos_left c.utf8Size_pos _

theorem offsetOf_append (before rest : Text) : offsetOf (before ++ rest) rest = utf8Length before := by
  rw [offsetOf, utf8Length_append, Nat.add_sub_cancel]

/-- What is read moves the offset by its length. -/
theorem offsetOf_rest (h : word ++ rest <:+ source) :
    offsetOf source rest = offsetOf source (word ++ rest) + utf8Length word := by
  obtain ⟨before, rfl⟩ := h
  rw [offsetOf_append, ← List.append_assoc, offsetOf_append, utf8Length_append]

theorem isBoundary_offsetOf (h : rest <:+ source) : source.IsBoundary (offsetOf source rest) := by
  obtain ⟨before, rfl⟩ := h
  exact ⟨before, rest, rfl, offsetOf_append before rest⟩

theorem slice?_offsetOf (h : word ++ rest <:+ source) :
    source.slice? (offsetOf source (word ++ rest)) (offsetOf source rest) = some word := by
  rw [offsetOf_rest h]
  obtain ⟨before, rfl⟩ := h
  exact slice?_eq_some_iff.mpr ⟨before, rest, rfl, offsetOf_append _ _, by rw [offsetOf_append]⟩

theorem isBlank_offsetOf (h : word ++ rest <:+ source) (hword : word.all isWhiteSpace = true) :
    source.IsBlank (offsetOf source (word ++ rest)) (offsetOf source rest) := by
  rw [offsetOf_rest h]
  obtain ⟨before, rfl⟩ := h
  exact ⟨before, word, rest, rfl, hword, offsetOf_append _ _, by rw [offsetOf_append]⟩

theorem IsBlank.le (h : text.IsBlank start stop) : start ≤ stop := by
  obtain ⟨before, blanks, after, -, -, rfl, rfl⟩ := h
  exact Nat.le_add_right _ _

end Text

end ODataRequest
