import ODataRequest.Text.Quoted

/-! Nesting of quotes and parentheses. A scanner that looks for a separator outside quotes and
parentheses keeps a depth and a quote flag. `Nesting.after?` is that state after a text in which the
scanner finds nothing to stop at, so that texts compose: a closed text leaves the scanner where it
was, and a text that is only closed within parentheses becomes closed between them. -/

namespace ODataRequest

open Text

namespace Nesting

variable {cuts : Char → Bool} {depth depth' : Nat} {inQuotes inQuotes' : Bool} {text left right : Text}

/-- The depth and the quote flag after one character, none where a scanner stops: at a surplus
closing parenthesis and at a separator outside quotes and parentheses. -/
def step (cuts : Char → Bool) (depth : Nat) (inQuotes : Bool) (c : Char) : Option (Nat × Bool) :=
  if c = quoteMark then some (depth, !inQuotes)
  else if inQuotes then some (depth, inQuotes)
  else if c = '(' then some (depth + 1, inQuotes)
  else if c = ')' then if depth = 0 then none else some (depth - 1, inQuotes)
  else if cuts c && depth = 0 then none
  else some (depth, inQuotes)

/-- The depth and the quote flag after a text that a scanner passes over. -/
def after? (cuts : Char → Bool) : Nat → Bool → Text → Option (Nat × Bool)
  | depth, inQuotes, [] => some (depth, inQuotes)
  | depth, inQuotes, c :: rest =>
    (step cuts depth inQuotes c).bind fun state => after? cuts state.1 state.2 rest

/-- A text that a scanner passes over and leaves outside quotes and parentheses. -/
def Closed (cuts : Char → Bool) (text : Text) : Prop :=
  after? cuts 0 false text = some (0, false)

/-- A text that is closed once it stands between parentheses. -/
def Inner (cuts : Char → Bool) (text : Text) : Prop :=
  after? cuts 1 false text = some (1, false)

/-- A character that means nothing to a scanner. -/
def isPlain (cuts : Char → Bool) (c : Char) : Bool :=
  c != quoteMark && c != '(' && c != ')' && !cuts c

instance : Decidable (Closed cuts text) :=
  inferInstanceAs (Decidable (_ = _))

theorem after?_append (depth : Nat) (inQuotes : Bool) (left right : Text) :
    after? cuts depth inQuotes (left ++ right) =
      (after? cuts depth inQuotes left).bind fun state => after? cuts state.1 state.2 right := by
  induction left generalizing depth inQuotes with
  | nil => rfl
  | cons c left ih =>
      rw [List.cons_append, after?, after?, Option.bind_assoc]
      exact congrArg _ (funext fun state => ih state.1 state.2)

theorem after?_append_of_eq (hleft : after? cuts depth inQuotes left = some (depth', inQuotes')) :
    after? cuts depth inQuotes (left ++ right) = after? cuts depth' inQuotes' right := by
  rw [after?_append, hleft]
  rfl

/-- What a scanner passes over at some depth it passes over at any greater depth. -/
theorem step_shift {c : Char} (h : step cuts depth inQuotes c = some (depth', inQuotes'))
    (extra : Nat) : step cuts (depth + extra) inQuotes c = some (depth' + extra, inQuotes') := by
  unfold step at h ⊢
  by_cases hquote : c = quoteMark
  · rw [if_pos hquote] at h ⊢
    cases h
    rfl
  rw [if_neg hquote] at h ⊢
  by_cases hin : inQuotes = true
  · rw [if_pos hin] at h ⊢
    cases h
    rfl
  rw [if_neg hin] at h ⊢
  by_cases hopen : c = '('
  · rw [if_pos hopen] at h ⊢
    cases h
    rw [Nat.add_right_comm]
  rw [if_neg hopen] at h ⊢
  by_cases hclose : c = ')'
  · rw [if_pos hclose] at h ⊢
    by_cases hdepth : depth = 0
    · rw [if_pos hdepth] at h
      cases h
    · rw [if_neg hdepth] at h
      cases h
      rw [if_neg (by omega), Nat.sub_add_comm (by omega)]
  rw [if_neg hclose] at h ⊢
  by_cases hcut : (cuts c && decide (depth = 0)) = true
  · rw [if_pos hcut] at h
    cases h
  · rw [if_neg hcut] at h
    cases h
    rw [if_neg]
    simp only [Bool.and_eq_true, decide_eq_true_eq, not_and] at hcut ⊢
    intro hc
    have := hcut hc
    omega

theorem after?_shift (h : after? cuts depth inQuotes text = some (depth', inQuotes')) (extra : Nat) :
    after? cuts (depth + extra) inQuotes text = some (depth' + extra, inQuotes') := by
  induction text generalizing depth inQuotes with
  | nil =>
      cases h
      rfl
  | cons c text ih =>
      rw [after?, Option.bind_eq_some_iff] at h
      obtain ⟨⟨middle, inside⟩, hstep, hrest⟩ := h
      rw [after?, step_shift hstep extra, Option.bind_some]
      exact ih hrest

theorem Closed.inner (h : Closed cuts text) : Inner cuts text :=
  after?_shift h 1

theorem Closed.nil : Closed cuts [] :=
  rfl

theorem Closed.append (hleft : Closed cuts left) (hright : Closed cuts right) :
    Closed cuts (left ++ right) :=
  (after?_append_of_eq hleft).trans hright

theorem Inner.append (hleft : Inner cuts left) (hright : Inner cuts right) :
    Inner cuts (left ++ right) :=
  (after?_append_of_eq hleft).trans hright

theorem step_plain {c : Char} (h : isPlain cuts c = true) :
    step cuts depth inQuotes c = some (depth, inQuotes) := by
  simp only [isPlain, Bool.and_eq_true, bne_iff_ne, ne_eq, Bool.not_eq_true'] at h
  obtain ⟨⟨⟨hquote, hopen⟩, hclose⟩, hcut⟩ := h
  rw [step, if_neg hquote, if_neg hopen, if_neg hclose, hcut]
  exact ite_self _

/-- Plain characters leave a scanner where it was. -/
theorem after?_plain (h : text.all (isPlain cuts) = true) :
    after? cuts depth inQuotes text = some (depth, inQuotes) := by
  induction text with
  | nil => rfl
  | cons c text ih =>
      rw [List.all_cons, Bool.and_eq_true] at h
      rw [after?, step_plain h.1]
      exact ih h.2

theorem Closed.plain (h : text.all (isPlain cuts) = true) : Closed cuts text :=
  after?_plain h

theorem step_quote : step cuts depth inQuotes quoteMark = some (depth, !inQuotes) :=
  if_pos rfl

theorem step_inside {c : Char} (h : c ≠ quoteMark) : step cuts depth true c = some (depth, true) := by
  rw [step, if_neg h, if_pos rfl]

/-- Every doubled quote leaves the quotes and enters them again. -/
theorem after?_doubleQuotes (value : Text) :
    after? cuts depth true (doubleQuotes value) = some (depth, true) := by
  induction value with
  | nil => rfl
  | cons c value ih =>
      by_cases hc : c = quoteMark
      · rw [doubleQuotes, if_pos hc, hc, after?, step_quote, Option.bind_some, after?, step_quote]
        exact ih
      · rw [doubleQuotes, if_neg hc, after?, step_inside hc]
        exact ih

theorem Closed.quoted (value : Text) : Closed cuts (quoted value) := by
  rw [Closed, Text.quoted, List.cons_append, after?, step_quote, Option.bind_some]
  exact (after?_append_of_eq (after?_doubleQuotes value)).trans rfl

/-- What is closed within parentheses is closed between them. -/
theorem Inner.parenthesized (h : Inner cuts text) : Closed cuts ('(' :: text ++ [')']) := by
  have hopen : step cuts 0 false '(' = some (1, false) := rfl
  rw [Closed, List.cons_append, after?, hopen, Option.bind_some]
  exact (after?_append_of_eq h).trans rfl

/-- A separator within parentheses. -/
theorem Inner.singleton {c : Char} (hquote : c ≠ quoteMark) (hopen : c ≠ '(') (hclose : c ≠ ')') :
    Inner cuts [c] := by
  rw [Inner, after?, step, if_neg hquote, if_neg Bool.false_ne_true, if_neg hopen, if_neg hclose,
    if_neg (by simp)]
  rfl

end Nesting

end ODataRequest
