import ODataRequest.Proofs.Query.Readers
import ODataRequest.Proofs.Text.Escapes
import ODataRequest.Request.Query

/-! The pairs of a query. A raw value that is closed against the separator of pairs ends where it
should, the fuel does not matter once it covers the text, and a pair that has been read matters to
the later ones only in that they may not repeat a system option. -/

namespace ODataRequest

open Text Nesting

namespace RawRequest

variable {cuts : Char → Bool} {depth depth' : Nat} {inQuotes inQuotes' : Bool} {text rest : Text}

/-! ### The end of a value -/

theorem spanTopLevel_of_step (hcut : cuts '&' = true) {c : Char}
    (h : step cuts depth inQuotes c = some (depth', inQuotes')) (rest : Text) :
    spanTopLevel depth inQuotes (c :: rest) =
      (c :: (spanTopLevel depth' inQuotes' rest).1, (spanTopLevel depth' inQuotes' rest).2) := by
  rw [spanTopLevel]
  rw [step] at h
  by_cases hquote : c = quoteMark
  · rw [if_pos hquote] at h ⊢
    cases h
    rfl
  rw [if_neg hquote] at h ⊢
  by_cases hin : inQuotes = true
  · rw [if_pos hin] at h ⊢
    cases h
    rfl
  rw [if_neg hin] at h ⊢
  by_cases hopen : c = '('
  · rw [if_pos hopen] at h ⊢
    cases h
    rfl
  rw [if_neg hopen] at h ⊢
  by_cases hclose : c = ')'
  · rw [if_pos hclose] at h ⊢
    by_cases hdepth : depth = 0
    · rw [if_pos hdepth] at h
      cases h
    · rw [if_neg hdepth] at h
      cases h
      rfl
  rw [if_neg hclose] at h ⊢
  by_cases hmark : (cuts c && decide (depth = 0)) = true
  · rw [if_pos hmark] at h
    cases h
  rw [if_neg hmark] at h
  have hseparator : ¬(decide (c = '&') && decide (depth = 0)) = true := by
    rw [Bool.and_eq_true, decide_eq_true_eq]
    rintro ⟨rfl, hdepth⟩
    exact hmark (by rw [hcut, hdepth]; rfl)
  rw [if_neg hseparator]
  cases h
  rfl

/-- The scan goes on behind a text that it passes over. -/
theorem spanTopLevel_append (hcut : cuts '&' = true)
    (h : Nesting.after? cuts depth inQuotes text = some (depth', inQuotes')) (rest : Text) :
    spanTopLevel depth inQuotes (text ++ rest) =
      (text ++ (spanTopLevel depth' inQuotes' rest).1, (spanTopLevel depth' inQuotes' rest).2) := by
  induction text generalizing depth inQuotes with
  | nil =>
      cases h
      rfl
  | cons c text ih =>
      rw [Nesting.after?, Option.bind_eq_some_iff] at h
      obtain ⟨state, hstep, h⟩ := h
      rw [List.cons_append, spanTopLevel_of_step hcut hstep, ih h]
      rfl

/-- The text from a separator of pairs on, or nothing. -/
def EndsPair (rest : Text) : Prop :=
  rest = [] ∨ ∃ others, rest = '&' :: others

theorem spanTopLevel_of_endsPair (h : EndsPair rest) : spanTopLevel 0 false rest = ([], rest) := by
  rcases h with rfl | ⟨others, rfl⟩ <;> rfl

/-- An expression's value ends before the separator of pairs behind it. -/
theorem spanTopLevel_closed (hcut : cuts '&' = true) (h : Closed cuts text) (hrest : EndsPair rest) :
    spanTopLevel 0 false (text ++ rest) = (text, rest) := by
  rw [spanTopLevel_append hcut h, spanTopLevel_of_endsPair hrest, List.append_nil]

theorem spanTopLevel_decompose (depth : Nat) (inQuotes : Bool) (text : Text) :
    text = (spanTopLevel depth inQuotes text).1 ++ (spanTopLevel depth inQuotes text).2 := by
  induction text generalizing depth inQuotes with
  | nil => rfl
  | cons c text ih =>
      rw [spanTopLevel]
      dsimp only
      split
      · exact congrArg (c :: ·) (ih _ _)
      split
      · exact congrArg (c :: ·) (ih _ _)
      split
      · exact congrArg (c :: ·) (ih _ _)
      split
      · exact congrArg (c :: ·) (ih _ _)
      split
      · rfl
      · exact congrArg (c :: ·) (ih _ _)

theorem spanValue_decompose (name : QueryOptionName) (text : Text) :
    text = (spanValue name text).1 ++ (spanValue name text).2 := by
  cases name with
  | system option =>
      rw [spanValue.eq_def]
      dsimp only
      split
      · exact spanTopLevel_decompose 0 false text
      · exact (List.takeWhile_append_dropWhile).symm
  | custom name => exact (List.takeWhile_append_dropWhile).symm

/-! ### Fuel -/

/-- The raw value of a pair and the text behind it, from the end of the name on. -/
def spanAfter (name : QueryOptionName) (after : Text) : Text × Text :=
  if after.head? = some '=' then spanValue name (after.drop 1) else ([], after)

theorem length_spanAfter (name : QueryOptionName) (after : Text) :
    (spanAfter name after).2.length ≤ after.length := by
  rw [spanAfter]
  split
  · have hlength := congrArg List.length (spanValue_decompose name (after.drop 1))
    rw [List.length_append, List.length_drop] at hlength
    omega
  · exact Nat.le_refl _

/-- One pair and the pairs behind it. -/
theorem pairs_cons (fuel : Nat) (seen : List QueryOptionName) (c : Char) (text : Text) :
    pairs (fuel + 1) seen (c :: text) = (
      let rawName := (c :: text).takeWhile isNameChar
      let after := (c :: text).dropWhile isNameChar
      if rawName.isEmpty && after.head? ≠ some '=' then pairs fuel seen (after.drop 1)
      else do
        let decoded ← decode rawName rawName
        let name ← QueryOptionName.parse decoded
        checkDistinct seen name
        let value ← decode rawName (spanAfter name after).1
        let others ← pairs fuel (name :: seen) ((spanAfter name after).2.drop 1)
        .ok (⟨name, value⟩ :: others)) :=
  rfl

theorem pairs_succ {fuel : Nat} {seen : List QueryOptionName} (h : text.length ≤ fuel) :
    pairs (fuel + 1) seen text = pairs fuel seen text := by
  induction fuel generalizing seen text with
  | zero =>
      cases text with
      | nil => rfl
      | cons c text => exact absurd h (Nat.not_succ_le_zero _)
  | succ fuel ih =>
      cases text with
      | nil => rfl
      | cons c text =>
          have hafter := (List.dropWhile_suffix isNameChar (l := c :: text)).length_le
          rw [List.length_cons] at h hafter
          rw [pairs_cons, pairs_cons]
          dsimp only
          split
          · refine ih ?_
            rw [List.length_drop]
            omega
          · refine bind_congr (m := Except MalformedOption) fun decoded => ?_
            refine bind_congr (m := Except MalformedOption) fun name => ?_
            have hrest := length_spanAfter name ((c :: text).dropWhile isNameChar)
            rw [ih]
            rw [List.length_drop]
            omega

/-- Fuel beyond the length of the text changes nothing. -/
theorem pairs_fuel {fuel : Nat} {seen : List QueryOptionName} (h : text.length ≤ fuel) :
    pairs fuel seen text = pairs text.length seen text := by
  induction h with
  | refl => rfl
  | step h ih => rw [pairs_succ h, ih]

/-! ### A pair that is written out -/

theorem parse_system {option : SystemOption} (h : option ≠ .levels) :
    QueryOptionName.parse option.name = .ok (.system option) := by
  cases option <;> first | rfl | exact absurd rfl h

theorem pairs_name {fuel : Nat} {seen : List QueryOptionName} {rawName after decoded : Text}
    {name : QueryOptionName} (hraw : rawName ≠ []) (hchars : rawName.all isNameChar = true)
    (hafter : after.head?.any isNameChar = false) (hdecoded : decode rawName rawName = .ok decoded)
    (hname : QueryOptionName.parse decoded = .ok name) :
    pairs (fuel + 1) seen (rawName ++ after) = (do
      checkDistinct seen name
      let value ← decode rawName (spanAfter name after).1
      let others ← pairs fuel (name :: seen) ((spanAfter name after).2.drop 1)
      .ok (⟨name, value⟩ :: others)) := by
  have htake := takeWhile_run hchars hafter
  have hdrop := dropWhile_run hchars hafter
  cases rawName with
  | nil => exact absurd rfl hraw
  | cons c others =>
      rw [List.cons_append] at htake hdrop ⊢
      rw [pairs_cons, htake, hdrop]
      dsimp only
      rw [List.isEmpty_cons, Bool.false_and, if_neg Bool.false_ne_true, hdecoded, ok_bind, hname, ok_bind]

/-- A name with a value that ends before the next separator. -/
theorem pairs_nameValue {fuel : Nat} {seen : List QueryOptionName} {rawName rawValue decoded value : Text}
    {name : QueryOptionName} (hraw : rawName ≠ []) (hchars : rawName.all isNameChar = true)
    (hdecoded : decode rawName rawName = .ok decoded) (hname : QueryOptionName.parse decoded = .ok name)
    (hspan : spanValue name (rawValue ++ rest) = (rawValue, rest))
    (hvalue : decode rawName rawValue = .ok value) :
    pairs (fuel + 1) seen (rawName ++ '=' :: (rawValue ++ rest)) = (do
      checkDistinct seen name
      let others ← pairs fuel (name :: seen) (rest.drop 1)
      .ok (⟨name, value⟩ :: others)) := by
  have hafter : spanAfter name ('=' :: (rawValue ++ rest)) = (rawValue, rest) := hspan
  rw [pairs_name hraw hchars rfl hdecoded hname, hafter, hvalue]
  rfl

theorem checkDistinct_congr {seen seen' : List QueryOptionName} {name : QueryOptionName}
    (h : name ∈ seen' ↔ name ∈ seen) : checkDistinct seen' name = checkDistinct seen name := by
  cases name with
  | system option => simp only [checkDistinct, h]
  | custom name => rfl

theorem decode_bare {rawName raw : Text} (h : '%' ∉ raw) : decode rawName raw = .ok raw := by
  rw [decode, Percent.unescape_bare h]

/-! ### From a request to its pairs -/

theorem cutOrAll_of_not_mem {separator : Char} (h : separator ∉ text) :
    cutOrAll separator text = (text, []) := by
  rw [cutOrAll, cutAt?_eq_none_iff.mpr h]
  rfl

theorem cutOrAll_append {separator : Char} {before after : Text} (h : separator ∉ before) :
    cutOrAll separator (before ++ separator :: after) = (before, after) := by
  rw [cutOrAll, cutAt?_append h]
  rfl

/-- A path with a query and no fragment. -/
theorem parse_query {path query : Text} (hmark : '?' ∉ path) (hpath : '#' ∉ path) (hquery : '#' ∉ query) :
    parse (path ++ '?' :: query) =
      pairs query.length [] query >>= fun pairs => .ok ⟨path, pairs⟩ := by
  have hfragment : '#' ∉ path ++ '?' :: query := by
    rw [List.mem_append, List.mem_cons]
    rintro (hmem | hmem | hmem)
    · exact hpath hmem
    · exact absurd hmem (by decide)
    · exact hquery hmem
  rw [parse, cutOrAll_of_not_mem hfragment]
  dsimp only
  rw [cutOrAll_append hmark]

/-- A path alone. -/
theorem parse_path {path : Text} (hmark : '?' ∉ path) (hpath : '#' ∉ path) :
    parse path = .ok ⟨path, []⟩ := by
  rw [parse, cutOrAll_of_not_mem hpath]
  dsimp only
  rw [cutOrAll_of_not_mem hmark]
  rfl

end RawRequest

end ODataRequest
