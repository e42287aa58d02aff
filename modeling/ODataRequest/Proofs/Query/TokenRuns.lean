import ODataRequest.Proofs.Query.Inversion

/-! The tokens of a text, one after the other. The value of some options is no sequence of tokens, but
text that is kept as it is up to the next separator, and is passed over here. A word that is no token
of a text is none of what a reader leaves of it, unless the reader stops within such a value. -/

namespace ODataRequest

open Text Reader

/-- The name of an option whose value is not written in the expression grammar. -/
def Token.namesPlain : Token → Bool
  | .name word => (SystemOption.ofName? word).any fun option => !option.isExpression
  | _ => false

namespace Lexeme

/-- The text with the next token. After an equals sign it follows the value of the option, if the
token before the sign names one whose value is kept as it is. -/
def onward (afterPlain : Bool) (lexeme : Lexeme) : Text :=
  if afterPlain && lexeme.token = .symbol .equals then (spanVerbatim 0 false lexeme.rest).2
  else lexeme.rest

/-- The tokens of a text up to its end or its first fault, where the fuel bounds their number. -/
def tokensFrom : Bool → Nat → Text → List Token
  | _, 0, _ => []
  | afterPlain, fuel + 1, text =>
    match next? text with
    | .ok (some lexeme) =>
      lexeme.token :: tokensFrom lexeme.token.namesPlain fuel (lexeme.onward afterPlain)
    | _ => []

/-- The tokens of a text up to its end or its first fault. -/
def tokens (text : Text) : List Token :=
  tokensFrom false text.length text

variable {afterPlain : Bool} {text : Text} {lexeme : Lexeme}

theorem length_onward_le (afterPlain : Bool) (lexeme : Lexeme) :
    (lexeme.onward afterPlain).length ≤ lexeme.rest.length := by
  unfold onward
  split_ifs
  · have hsplit := congrArg List.length (spanVerbatim_spec 0 false lexeme.rest).1
    rw [List.length_append] at hsplit
    omega
  · exact Nat.le_refl _

/-- There are no more tokens than characters. -/
theorem tokensFrom_of_le {fuel : Nat} (h : text.length ≤ fuel) :
    tokensFrom afterPlain fuel text = tokensFrom afterPlain text.length text := by
  have hsucc : ∀ {fuel : Nat} {afterPlain : Bool} {text : Text}, text.length ≤ fuel →
      tokensFrom afterPlain (fuel + 1) text = tokensFrom afterPlain fuel text := by
    intro fuel
    induction fuel with
    | zero =>
        intro afterPlain text htext
        rw [List.length_eq_zero_iff.mp (Nat.le_zero.mp htext)]
        rfl
    | succ fuel ih =>
        intro afterPlain text htext
        rw [tokensFrom, tokensFrom]
        split
        · rename_i lexeme hnext
          have hrest := length_lt_of_next? hnext
          have honward := length_onward_le afterPlain lexeme
          rw [ih (by omega)]
        · rfl
  induction fuel, h using Nat.le_induction with
  | base => rfl
  | succ fuel hle ih => rw [hsucc hle, ih]

theorem tokensFrom_of_next? (h : next? text = .ok (some lexeme)) :
    tokensFrom afterPlain text.length text = lexeme.token ::
      tokensFrom lexeme.token.namesPlain (lexeme.onward afterPlain).length
        (lexeme.onward afterPlain) := by
  have hrest := length_lt_of_next? h
  have honward := length_onward_le afterPlain lexeme
  obtain ⟨fuel, hfuel⟩ : ∃ fuel, text.length = fuel + 1 := ⟨text.length - 1, by omega⟩
  rw [hfuel, tokensFrom, h]
  dsimp only
  rw [tokensFrom_of_le (by omega)]

end Lexeme

/-! ### Words that are not written -/

/-- No token of what is left of a text is the word. -/
def Unwritten (word text : Text) : Prop :=
  ∃ afterPlain, Token.name word ∉ Lexeme.tokensFrom afterPlain text.length text

namespace Unwritten

variable {word text rest start : Text} {token : Token}

theorem onward {lexeme : Lexeme} (h : Lexeme.next? text = .ok (some lexeme))
    {afterPlain : Bool} (hunwritten : Token.name word ∉
      Lexeme.tokensFrom afterPlain text.length text) :
    lexeme.token ≠ .name word ∧ Token.name word ∉ Lexeme.tokensFrom lexeme.token.namesPlain
      (lexeme.onward afterPlain).length (lexeme.onward afterPlain) := by
  rw [Lexeme.tokensFrom_of_next? h, List.mem_cons, not_or] at hunwritten
  exact ⟨Ne.symm hunwritten.1, hunwritten.2⟩

theorem next (h : Lexeme.next? text = .ok (some ⟨token, start, rest⟩))
    (htoken : token ≠ .symbol .equals) (hunwritten : Unwritten word text) :
    token ≠ .name word ∧ Unwritten word rest := by
  obtain ⟨afterPlain, hunwritten⟩ := hunwritten
  obtain ⟨hword, hmore⟩ := onward h hunwritten
  have honward : Lexeme.onward afterPlain ⟨token, start, rest⟩ = rest := by
    rw [Lexeme.onward, decide_eq_false htoken, Bool.and_false, if_neg Bool.false_ne_true]
  rw [honward] at hmore
  exact ⟨hword, _, hmore⟩

/-- Where the value of an option begins, or after it if it is kept as it is. -/
theorem assignment {option : SystemOption} (h : Grammar.Assignment text option rest)
    (hunwritten : Unwritten word text) : Unwritten word
      (if option.isExpression then rest else (spanVerbatim 0 false rest).2) := by
  obtain ⟨start, after, hname, hequals⟩ := h
  obtain ⟨start', hequals⟩ := next?_of_symbol? hequals
  obtain ⟨afterPlain, hunwritten⟩ := hunwritten
  obtain ⟨-, hvalue⟩ := onward hname hunwritten
  have hafter : Lexeme.onward afterPlain ⟨.name option.name, start, after⟩ = after := by
    rw [Lexeme.onward, decide_eq_false (by simp), Bool.and_false, if_neg Bool.false_ne_true]
  have hplain : Token.namesPlain (.name option.name) = !option.isExpression := by
    rw [Token.namesPlain, SystemOption.ofName?_name, Option.any_some]
  rw [hafter, hplain] at hvalue
  obtain ⟨-, hmore⟩ := onward hequals hvalue
  rw [Lexeme.onward, decide_eq_true rfl, Bool.and_true] at hmore
  cases hexpression : option.isExpression with
  | true =>
      rw [hexpression] at hmore
      exact ⟨false, hmore⟩
  | false =>
      rw [hexpression] at hmore
      exact ⟨false, hmore⟩

end Unwritten

end ODataRequest
