import ODataRequest.Proofs.Query.Rereading
import ODataRequest.Proofs.Query.Settling
import ODataRequest.Proofs.Query.Soundness
import ODataRequest.Query.Equality

/-! The round trip of parsing and writing. Main statements: the canonical text of an accepted option
value is accepted again as the same value, with the same depth limit, if no sign in it stands before
a literal; and the canonical text of an accepted expression is its own canonical text exactly if the
literals under its signs keep them. -/

namespace ODataRequest

open Text Grammar

theorem readWhole_eq_ok {α : Type} {reader : Reader α} {text : Text} {value : α}
    (h : reader text = .ok (value, [])) : readWhole reader text = .ok value := by
  rw [readWhole, h]
  rfl

/-- What stops before a minus sign is not the whole text. -/
theorem readWhole_of_derails {α : Type} {reader : Reader α} {text : Text} (h : Derails (reader text))
    (value : α) : readWhole reader text ≠ .ok value := by
  intro hok
  obtain ⟨⟨found, rest⟩, hfound, hok⟩ := bind_eq_ok.mp hok
  obtain ⟨_, hend, -⟩ := bind_eq_ok.mp hok
  exact Reader.atEnd_of_minus (h found rest hfound) hend

/-- The whole of a canonical text. -/
theorem readWhole_iff_of_readsAs {α : Type} {reader : Reader α} {text : Text} {expected : Option α}
    (h : ReadsAs (reader text) expected []) (value : α) :
    readWhole reader text = .ok value ↔ expected = some value := by
  cases expected with
  | none =>
      constructor
      · exact fun hok => absurd hok (readWhole_of_derails h value)
      · exact fun heq => by cases heq
  | some found =>
      rw [readWhole_eq_ok h]
      constructor
      · rintro ⟨⟩
        rfl
      · rintro ⟨⟩
        rfl

theorem mapError_eq_ok_iff {ε ε' α : Type} {result : Except ε α} {f : ε → ε'} {value : α} :
    result.mapError f = .ok value ↔ result = .ok value := by
  refine ⟨eq_ok_of_mapError, ?_⟩
  rintro rfl
  rfl

/-- The canonical text of an expression that fits is accepted as what the expression is reread as. -/
theorem Expression.parse_render_iff {expression found : Expression} {maxDepth : Nat}
    (h : expression.Fits [] maxDepth) :
    Expression.parse expression.render maxDepth = .ok found ↔ expression.reread = some found := by
  have hreads := reads_whole h.operandText Stops.nil
  rw [List.append_nil] at hreads
  rw [Expression.parse, mapError_eq_ok_iff]
  exact readWhole_iff_of_readsAs hreads found

theorem OptionValue.parse_render_iff {option : SystemOption} {value found : OptionValue} {maxDepth : Nat}
    (h : value.Fits [] maxDepth option) :
    OptionValue.parse option value.render maxDepth = .ok found ↔ value.reread = some found := by
  have hreads := h.readsAs (fun _ => rfl) (Or.inl rfl)
  rw [List.append_nil] at hreads
  rw [OptionValue.parse, mapError_eq_ok_iff]
  exact readWhole_iff_of_readsAs hreads found

/-- **Parsing what was written.** The canonical text of an accepted option value parses back to the
very same tree, within the same depth limit. -/
theorem OptionValue.parse_render {option : SystemOption} {raw : Text} {maxDepth : Nat}
    {value : OptionValue} (h : OptionValue.parse option raw maxDepth = .ok value)
    (hnegated : value.negatedLiterals = []) :
    OptionValue.parse option value.render maxDepth = .ok value :=
  (OptionValue.parse_render_iff (OptionValue.fits_of_parse h)).mpr
    (OptionValue.reread_of_negatedLiterals_eq_nil hnegated)

theorem OptionValue.parse_render_comparison :
    OptionValue.parse .filter "(Price)  gt 05".toList 1 =
        .ok (.filter (.binary .gt (.access ⟨none, ["Price".toList]⟩) (.literal (.integer 5)))) ∧
      OptionValue.parse .filter "Price gt 5".toList 1 =
        .ok (.filter (.binary .gt (.access ⟨none, ["Price".toList]⟩) (.literal (.integer 5)))) := by
  have hparse : OptionValue.parse .filter "(Price)  gt 05".toList 1 =
      .ok (.filter (.binary .gt (.access ⟨none, ["Price".toList]⟩) (.literal (.integer 5)))) := by
    decide +kernel
  have hrender : (OptionValue.filter (.binary .gt (.access ⟨none, ["Price".toList]⟩)
      (.literal (.integer 5)))).render = "Price gt 5".toList := by
    decide +kernel
  have hagain := OptionValue.parse_render hparse rfl
  rw [hrender] at hagain
  exact ⟨hparse, hagain⟩

/-- **When canonical text is a fixed point.** Writing an accepted expression and parsing it again
gives the same canonical text exactly if every literal directly under a sign keeps the sign: it is a
number other than zero, and not the absolute value of the least integer with leading zeros. -/
theorem Expression.render_fixed_iff {raw : Text} {maxDepth : Nat} {expression : Expression}
    (h : Expression.parse raw maxDepth = .ok expression) :
    (∃ found, Expression.parse expression.render maxDepth = .ok found ∧
      found.render = expression.render) ↔
        ∀ literal ∈ expression.negatedLiterals, literal.KeepsMinus := by
  have hfits := Expression.fits_of_parse h
  rw [← hfits.settles.eq_iff, Option.map_eq_some_iff]
  simp only [Expression.parse_render_iff hfits]

/-- A sign is kept before a number in parentheses, and lost before a string in parentheses. -/
theorem Expression.render_fixed_iff_group :
    (∃ found, Expression.parse "-5".toList 2 = .ok found ∧ found.render = "-5".toList) ∧
      ¬∃ found, Expression.parse "-'x'".toList 2 = .ok found ∧ found.render = "-'x'".toList := by
  have hnumber : Expression.parse "-(5)".toList 2 = .ok (.unary .negate (.literal (.integer 5))) := by
    decide +kernel
  have hstring : Expression.parse "-('x')".toList 2 =
      .ok (.unary .negate (.literal (.string "x".toList))) := by
    decide +kernel
  have hnumber' : (Expression.unary .negate (.literal (.integer 5))).render = "-5".toList := by
    decide +kernel
  have hstring' : (Expression.unary .negate (.literal (.string "x".toList))).render =
      "-'x'".toList := by
    decide +kernel
  have hfixed := Expression.render_fixed_iff hnumber
  have hlost := Expression.render_fixed_iff hstring
  rw [hnumber'] at hfixed
  rw [hstring'] at hlost
  constructor
  · refine hfixed.mpr fun literal hmem => ?_
    cases List.mem_singleton.mp hmem
    decide
  · exact fun hfound => hlost.mp hfound _ List.mem_cons_self

end ODataRequest
