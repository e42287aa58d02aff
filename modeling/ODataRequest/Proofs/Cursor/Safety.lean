import ODataRequest.Proofs.Cursor.Agreement

/-! The reading position of a whole parse. Main statement: the run over the bytes of a text has the outcome of
the reader, and all that it does on the way is safe. -/

namespace ODataRequest

open Text

namespace Cursor

variable {input : Input}

/-- At the beginning nothing is read, and no token waits. -/
theorem looked_initial (input : Input) : Looked input input.source 0 [] ⟨0, [], []⟩ where
  suffix := List.suffix_refl _
  lawful := trivial
  current := rfl
  pending := rfl
  waits := by
    have hstart : 0 = offsetOf input.source input.source := (Nat.sub_self _).symm
    exact ⟨[], input.source, .nil _, rfl, hstart, hstart, Or.inl ⟨rfl, rfl⟩⟩

/-- The run over a whole source reads the value that the reader reads. -/
theorem Run.agrees_wholeValue (hturns : input.source.length < input.turns) (option : SystemOption) :
    Agrees input (fun value result s => result = value ∧ s.journal.Lawful input.source)
      (readWhole (Grammar.optionValue (Grammar.nested input.maxDepth) [] option) input.source)
      ((wholeValue input option).exec ⟨0, [], []⟩) := by
  have hinner := descends_nested hturns input.maxDepth
  rw [readWhole, wholeValue]
  refine (agrees_optionValue hinner [] (looked_initial input) hturns option).bind
    fun read value s _ hrests => ?_
  obtain ⟨rfl, pending, -, count, hlooked, -⟩ := hrests
  refine hlooked.agrees_expectEnd.bind fun _ _ s _ hlawful => ?_
  exact ⟨rfl, hlawful⟩

/-- A run that agrees with a reading on its value ends as the reading does. -/
theorem Agrees.outcome {α : Type} {read : Except Fault α} {outcome : Except Failure α × State}
    (h : Agrees input (fun value result s => result = value ∧ s.journal.Lawful input.source) read outcome) :
    outcome.1 = (read.mapError (QueryError.ofFault input.option input.source input.maxDepth)).mapError
        .rejected ∧ outcome.2.journal.Lawful input.source := by
  obtain ⟨result, s⟩ := outcome
  cases read with
  | ok value =>
      cases result with
      | ok result => exact ⟨congrArg _ h.1, h.2⟩
      | error failure => exact h.elim
  | error fault =>
      cases result with
      | ok result => exact h.elim
      | error failure => exact ⟨congrArg _ h.1, h.2⟩

end Cursor

open Cursor

/-- **The reading position is safe and only moves on.** However often more than the text has characters a
loop may turn, the run over the bytes of a text gives the value or the error of the reader, so that no slice
of it fails and no loop goes on. Of all that it does on the way: every slice lies between boundaries in order;
tokens are not empty, and they come in order and apart with nothing but white space and raw values between
them; the position never moves back, also where it moves to the end of a raw value, where no token waits;
and between any two entries of a stage of the grammar or turns of a loop a token is taken. -/
theorem OptionValue.parse_reads_safely (option : SystemOption) (text : Text) {maxDepth turns : Nat}
    (h : text.length < turns) :
    (Cursor.parse option text maxDepth turns).1 =
        (OptionValue.parse option text maxDepth).mapError .rejected ∧
      Safe text (Cursor.parse option text maxDepth turns).2.journal.reverse := by
  let input : Input := ⟨option.name, text, maxDepth, turns⟩
  have hagrees := Run.agrees_wholeValue (show input.source.length < input.turns from h) option
  obtain ⟨hresult, hlawful⟩ := hagrees.outcome
  exact ⟨hresult, hlawful.safe⟩

/-- A raw value whose first character takes two bytes, with tokens before and after it. -/
theorem OptionValue.parse_reads_safely_nested :
    let text : Text := "Größe($search=ü und;$top=1)".toList
    let run := Cursor.parse .expand text 3 40
    text.length < 40 ∧ (OptionValue.parse .expand text 3).isOk = true ∧
      .kept 16 22 0 ∈ run.2.journal.reverse ∧
      run.1 = (OptionValue.parse .expand text 3).mapError .rejected ∧ Safe text run.2.journal.reverse := by
  intro text run
  have hlength : text.length < 40 := by decide
  have hread : (OptionValue.parse .expand text 3).isOk = true ∧
      .kept 16 22 0 ∈ run.2.journal.reverse := by decide +kernel
  exact ⟨hlength, hread.1, hread.2, OptionValue.parse_reads_safely .expand text hlength⟩

end ODataRequest
