import ODataRequest.Proofs.Query.RoundTrip

/-! Texts that leave out the implicit variable. Among the options of a counted collection a path may
drop the variable that it starts from, at any number of places and at any depth, wherever what is left
does not begin like something else. The grammar reads the same tree as from the canonical text. -/

namespace ODataRequest

open Text Grammar

/-- The value of an option is read from any text of it that leaves out implicit variables. -/
theorem OptionValue.parse_render_resolved {option : SystemOption} {raw : Text} {maxDepth : Nat}
    {value written : OptionValue} (h : OptionValue.parse option raw maxDepth = .ok value)
    (hnegated : value.negatedLiterals = []) (hresolved : written.resolved [] = value)
    (hreadable : ∀ reference ∈ written.references [], reference.Readable) :
    OptionValue.parse option written.render maxDepth = .ok value := by
  have hfits : (written.resolved []).Fits [] maxDepth option := by
    rw [hresolved]
    exact OptionValue.fits_of_parse h
  have hreads := written.readsAs_of_resolved hfits hreadable (fun _ => rfl) (Or.inl rfl)
  rw [List.append_nil, hresolved, OptionValue.reread_of_negatedLiterals_eq_nil hnegated] at hreads
  rw [OptionValue.parse, mapError_eq_ok_iff]
  exact (readWhole_iff_of_readsAs hreads value).mpr rfl

/-- **Leaving out the implicit variable.** Let `written` differ from an accepted expression in that
some of its paths among the options of counted collections do not name the implicit variable, each of
them with a first member that is neither the negation nor a range variable of a lambda around it. The
canonical text of `written` is accepted within the same depth limit, as the very same expression. -/
theorem Expression.parse_render_abbreviated {raw : Text} {maxDepth : Nat}
    {expression written : Expression} (h : Expression.parse raw maxDepth = .ok expression)
    (hnegated : expression.negatedLiterals = []) (hresolved : written.resolved [] = expression)
    (hreadable : ∀ reference ∈ written.references [], reference.Readable) :
    Expression.parse written.render maxDepth = .ok expression := by
  have hfits : (written.resolved []).Fits [] maxDepth := by
    rw [hresolved]
    exact Expression.fits_of_parse h
  have hreads := reads_whole (written.operandText_of_resolved hfits hreadable) Stops.nil
  rw [List.append_nil, hresolved, Expression.reread_of_negatedLiterals_eq_nil hnegated] at hreads
  rw [Expression.parse, mapError_eq_ok_iff]
  exact (readWhole_iff_of_readsAs hreads expression).mpr rfl

/-- Two of three paths leave out the implicit variable, one of them in a lambda among the options. -/
theorem Expression.parse_render_abbreviated_nested : ∃ expression,
    Expression.parse ("Orders/any(o:o/Items/$count($filter=$it/Price gt o/Limit and " ++
      "$it/Tags/any(t:$it/Name eq t)) gt 2)").toList 4 = .ok expression ∧
    Expression.parse ("Orders/any(o:o/Items/$count($filter=Price gt o/Limit and " ++
      "$it/Tags/any(t:Name eq t)) gt 2)").toList 4 = .ok expression := by
  have hparse : Expression.parse
      ("Orders/any(o:o/Items/$count($filter=$it/Price gt o/Limit and " ++
        "$it/Tags/any(t:$it/Name eq t)) gt 2)").toList 4 =
      .ok (.lambda .any ⟨none, ["Orders".toList]⟩ (some "o".toList) (some (.binary .gt
        (.subquery ⟨some "o".toList, ["Items".toList]⟩ [.mk .filter (.filter (.binary .and
          (.binary .gt (.access ⟨some implicitVariable, ["Price".toList]⟩)
            (.access ⟨some "o".toList, ["Limit".toList]⟩))
          (.lambda .any ⟨some implicitVariable, ["Tags".toList]⟩ (some "t".toList) (some (.binary .eq
            (.access ⟨some implicitVariable, ["Name".toList]⟩) (.rangeVariable "t".toList))))))])
        (.literal (.integer 2))))) := by
    decide +kernel
  have hrender : (Expression.lambda .any ⟨none, ["Orders".toList]⟩ (some "o".toList)
      (some (.binary .gt
        (.subquery ⟨some "o".toList, ["Items".toList]⟩ [.mk .filter (.filter (.binary .and
          (.binary .gt (.access ⟨none, ["Price".toList]⟩)
            (.access ⟨some "o".toList, ["Limit".toList]⟩))
          (.lambda .any ⟨some implicitVariable, ["Tags".toList]⟩ (some "t".toList) (some (.binary .eq
            (.access ⟨none, ["Name".toList]⟩) (.rangeVariable "t".toList))))))])
        (.literal (.integer 2))))).render =
      ("Orders/any(o:o/Items/$count($filter=Price gt o/Limit and " ++
        "$it/Tags/any(t:Name eq t)) gt 2)").toList := by
    decide +kernel
  rw [← hrender]
  exact ⟨_, hparse, Expression.parse_render_abbreviated hparse rfl (by decide +kernel)
    (by decide +kernel)⟩

end ODataRequest
