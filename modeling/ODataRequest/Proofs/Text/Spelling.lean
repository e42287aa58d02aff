import ODataRequest.Proofs.Text.Escapes

/-! The characters of escaped texts. What a profile escapes is spelled with the characters of its component
of a URI and with complete escapes in upper case, and so is what is put together from such texts. -/

namespace ODataRequest

namespace Percent

/-- A letter, a digit or a mark that is nowhere reserved in a URI. -/
def isUnreserved (c : Char) : Bool :=
  c.isAlphanum || "-._~".toList.contains c

/-- A mark that may delimit parts within a component of a URI. -/
def isSubDelimiter (c : Char) : Bool :=
  "!$&'()*+,;=".toList.contains c

/-- A character of the segments of a path, escapes apart, or the slash between them. -/
def isPathChar (c : Char) : Bool :=
  isUnreserved c || isSubDelimiter c || c = ':' || c = '@' || c = '/'

/-- A character of the names and values of a query, escapes apart, or a mark between them. -/
def isQueryChar (c : Char) : Bool :=
  isUnreserved c || c = '$' || c = '@' || c = '=' || c = '&'

/-- A digit of an escape in upper case. -/
def isUpperHexDigit (c : Char) : Bool :=
  c.isDigit || ('A' ≤ c && c ≤ 'F')

/-- A text of certain characters and of complete escapes. -/
structure Spelled (allowed : Char → Bool) (text : Text) : Prop where
  chars : ∀ c ∈ text, allowed c = true ∨ c = '%'
  escapes : ∀ before after, text = before ++ '%' :: after → ∃ high low rest,
    after = high :: low :: rest ∧ isUpperHexDigit high = true ∧ isUpperHexDigit low = true

namespace Spelled

variable {allowed : Char → Bool} {left right text : Text}

theorem nil : Spelled allowed [] where
  chars := fun _ hc => absurd hc List.not_mem_nil
  escapes := fun before _ h =>
    absurd h.symm (List.append_ne_nil_of_right_ne_nil before (List.cons_ne_nil _ _))

theorem bare (hpercent : allowed '%' = false) (h : text.all allowed = true) : Spelled allowed text where
  chars := fun c hc => Or.inl (List.all_eq_true.mp h c hc)
  escapes := by
    rintro before after rfl
    have hallowed := List.all_eq_true.mp h '%' (List.mem_append_right before List.mem_cons_self)
    rw [hpercent] at hallowed
    cases hallowed

theorem append (hleft : Spelled allowed left) (hright : Spelled allowed right) :
    Spelled allowed (left ++ right) where
  chars := by
    intro c hc
    rcases List.mem_append.mp hc with hc | hc
    · exact hleft.chars c hc
    · exact hright.chars c hc
  escapes := by
    intro before after h
    rcases List.append_eq_append_iff.mp h with ⟨middle, -, hmiddle⟩ | ⟨middle, hmiddle, hafter⟩
    · exact hright.escapes middle after hmiddle
    · cases middle with
      | nil => exact hright.escapes [] after hafter.symm
      | cons c middle =>
          obtain ⟨rfl, rfl⟩ := List.cons.inj hafter
          obtain ⟨high, low, rest, rfl, hdigits⟩ := hleft.escapes before middle hmiddle
          exact ⟨high, low, rest ++ right, rfl, hdigits⟩

theorem flatMap {α : Type} {f : α → Text} {items : List α} (h : ∀ item ∈ items, Spelled allowed (f item)) :
    Spelled allowed (items.flatMap f) := by
  induction items with
  | nil => exact nil
  | cons item items ih =>
      obtain ⟨hitem, hitems⟩ := List.forall_mem_cons.mp h
      rw [List.flatMap_cons]
      exact hitem.append (ih hitems)

theorem isUpperHexDigit_hexDigit : ∀ n < 16, isUpperHexDigit (hexDigit n) = true := by
  decide

/-- One complete escape. -/
theorem digits {high low : Nat} (hallowed : ∀ n < 16, allowed (hexDigit n) = true)
    (hhigh : high < 16) (hlow : low < 16) : Spelled allowed ['%', hexDigit high, hexDigit low] where
  chars := by
    intro c hc
    simp only [List.mem_cons, List.not_mem_nil, or_false] at hc
    rcases hc with rfl | rfl | rfl
    · exact Or.inr rfl
    · exact Or.inl (hallowed high hhigh)
    · exact Or.inl (hallowed low hlow)
  escapes := by
    have hne : ∀ n < 16, hexDigit n ≠ '%' := by decide
    have hnot : '%' ∉ [hexDigit high, hexDigit low] := by
      simp only [List.mem_cons, List.not_mem_nil, or_false, not_or]
      exact ⟨(hne high hhigh).symm, (hne low hlow).symm⟩
    intro before after h
    cases before with
    | nil =>
        obtain ⟨-, rfl⟩ := List.cons.inj h
        exact ⟨_, _, [], rfl, isUpperHexDigit_hexDigit high hhigh, isUpperHexDigit_hexDigit low hlow⟩
    | cons c before =>
        have htail := (List.cons.inj h).2
        exact absurd (htail ▸ List.mem_append_right before List.mem_cons_self) hnot

end Spelled

/-- The characters that a component allows are enough for what a profile writes. -/
structure Profile.Within (profile : Profile) (allowed : Char → Bool) : Prop where
  percent : allowed '%' = false
  digits : ∀ n < 16, allowed (hexDigit n) = true
  bare : ∀ n < 0x7F, profile.reserves (UInt8.ofNat n) = false → allowed (Char.ofNat n) = true

theorem path_within : Profile.path.Within isPathChar :=
  ⟨by decide, by decide, by decide +kernel⟩

theorem queryValue_within : Profile.queryValue.Within isQueryChar :=
  ⟨by decide, by decide, by decide +kernel⟩

/-- What a profile escapes is spelled with its characters. -/
theorem Profile.Within.spelled {profile : Profile} {allowed : Char → Bool} (h : profile.Within allowed)
    (text : Text) : Spelled allowed (escape profile text) := by
  refine Spelled.flatMap fun byte _ => ?_
  have hlt : byte.toNat < 256 := byte.toNat_lt
  rw [encodeByte]
  split
  · exact Spelled.digits h.digits (by omega) (by omega)
  · rename_i hbare
    rw [Bool.not_eq_true] at hbare
    have hallowed := h.bare byte.toNat (Profile.bare_of_reserves hbare).1
    rw [UInt8.ofNat_toNat] at hallowed
    exact Spelled.bare h.percent (by rw [List.all_cons, hallowed hbare]; rfl)

end Percent

end ODataRequest
