import ODataRequest.Proofs.Query.Reading

/-! Operators and operands that are written out. Operands with operators of one strength between them
are read in a loop that groups to the left, so that the left operand of a written operator is where
the loop stands when it comes to the operator. `OperandText` says this of a text at the strength that
it binds with; at any looser strength it then holds as well. -/

namespace ODataRequest

open Text Nesting

namespace Grammar

/-- The operators of a binding strength. -/
def operatorsAt : Nat → List BinaryOperator
  | 1 => BinaryOperator.disjunctive
  | 2 => BinaryOperator.conjunctive
  | 3 => BinaryOperator.comparison
  | 4 => BinaryOperator.additive
  | 5 => BinaryOperator.multiplicative
  | _ => []

/-- The readers of the strengths from the tightest on. -/
def strata (inner : GoalReader) (scopes : Scopes) : Nat → Reader Expression
  | 0 => operand inner scopes
  | height + 1 => leftAssociated (operatorsAt (5 - height)) (strata inner scopes height)

variable {inner : GoalReader} {scopes : Scopes} {text rest : Text}

/-- An operand with nothing behind it is read at every strength. -/
theorem strata_of_operand {expression : Expression} (h : operand inner scopes text = .ok (expression, []))
    (height : Nat) : strata inner scopes height text = .ok (expression, []) := by
  induction height with
  | zero => exact h
  | succ height ih =>
      rw [strata, leftAssociated, ih]
      rfl

theorem expression_eq_strata : expression inner scopes = strata inner scopes 5 :=
  rfl

theorem precedence_of_mem {strength : Nat} {op : BinaryOperator} (h : op ∈ operatorsAt strength) :
    op.precedence = strength := by
  unfold operatorsAt at h
  split at h
  · revert op
    decide
  · revert op
    decide
  · revert op
    decide
  · revert op
    decide
  · revert op
    decide
  · cases h

theorem precedence_bounds (op : BinaryOperator) : 1 ≤ op.precedence ∧ op.precedence ≤ 5 := by
  cases op <;> decide

/-! ### Blanks before an operand -/

theorem operand_space : operand inner scopes (' ' :: text) = operand inner scopes text := by
  simp only [operand, primary, Reader.word?, Reader.symbol?, Reader.unexpected, Lexeme.next?_space]

theorem strata_space (height : Nat) :
    strata inner scopes height (' ' :: text) = strata inner scopes height text := by
  induction height with
  | zero => exact operand_space
  | succ height ih => rw [strata, leftAssociated, leftAssociated, ih]

/-! ### The loop over operators -/

section Loop

variable {operators : List BinaryOperator} {operand : Reader Expression}

theorem operator?_of_minus (h : text.head? = some '-') {found : Option (BinaryOperator × Text)}
    (hfound : operator? operators text = .ok found) : found = none := by
  obtain ⟨next, hnext, hfound⟩ := bind_eq_ok.mp hfound
  obtain ⟨lexeme, rfl, hname, -⟩ := Reader.next?_of_minus h hnext
  split at hfound
  · rename_i heq
    cases heq
    exact absurd rfl (hname _)
  · cases hfound
    rfl

theorem moreOperands_of_minus (fuel : Nat) (left : Expression) (h : text.head? = some '-') :
    Derails (moreOperands operators operand fuel left text) := by
  cases fuel with
  | zero => exact .of_minus h
  | succ fuel =>
      refine Derails.of_bind fun found hfound => ?_
      cases operator?_of_minus h hfound
      exact .of_minus h

theorem operator?_keyword (op : BinaryOperator) (rest : Text) :
    operator? (operatorsAt op.precedence) (' ' :: (op.keyword ++ ' ' :: rest)) =
      .ok (some (op, ' ' :: rest)) := by
  have hfind : (operatorsAt op.precedence).find? (fun other => other.keyword = op.keyword) =
      some op := by
    cases op <;> decide
  rw [operator?, Stops.next?_keyword]
  show Except.ok (((operatorsAt op.precedence).find? fun other => other.keyword = op.keyword).map
    (·, ' ' :: rest)) = _
  rw [hfind]
  rfl

/-- A reading that has come to the left operand of what follows, and goes on from there. -/
def Leads (operators : List BinaryOperator) (operand : Reader Expression)
    (result : Except Fault (Expression × Text)) (expected : Option Expression) (rest : Text) : Prop :=
  match expected with
  | some left =>
    ∃ fuel, rest.length ≤ fuel ∧ result = moreOperands operators operand fuel left rest
  | none => Derails result

theorem Leads.of_reads {expected : Option Expression} (h : ReadsAs (operand text) expected rest) :
    Leads operators operand (leftAssociated operators operand text) expected rest := by
  cases expected with
  | none =>
      exact Derails.bind h fun value text hminus => moreOperands_of_minus text.length value hminus
  | some left =>
      have hok : operand text = .ok (left, rest) := h
      refine ⟨rest.length, Nat.le_refl _, ?_⟩
      rw [leftAssociated, hok]
      rfl

/-- The loop ends where no operator of its strength follows. -/
theorem Leads.reads {result : Except Fault (Expression × Text)} {expected : Option Expression}
    (h : Leads operators operand result expected rest)
    (hstop : operator? operators rest = .ok none) : ReadsAs result expected rest := by
  cases expected with
  | none => exact h
  | some left =>
      obtain ⟨fuel, -, hresult⟩ := h
      rw [hresult]
      cases fuel with
      | zero => rfl
      | succ fuel =>
          show moreOperands operators operand (fuel + 1) left rest = _
          rw [moreOperands, hstop]
          rfl

/-- An operator after the left operand, then a right operand, become the next left operand. -/
theorem Leads.binary {result : Except Fault (Expression × Text)} {op : BinaryOperator}
    {left right : Option Expression}
    (hleft : Leads (operatorsAt op.precedence) operand result left
      (' ' :: (op.keyword ++ ' ' :: text)))
    (hright : ReadsAs (operand (' ' :: text)) right rest) (hlength : rest.length ≤ text.length) :
    Leads (operatorsAt op.precedence) operand result
      (left.bind fun left => right.map fun right => .binary op left right) rest := by
  cases left with
  | none => exact hleft
  | some left =>
      obtain ⟨fuel, hfuel, hresult⟩ := hleft
      rw [List.length_cons, List.length_append, List.length_cons] at hfuel
      obtain ⟨fuel, rfl⟩ : ∃ below, fuel = below + 1 := ⟨fuel - 1, by omega⟩
      rw [hresult, moreOperands, operator?_keyword]
      show Leads _ _ (operand (' ' :: text) >>= fun read =>
        moreOperands (operatorsAt op.precedence) operand fuel (.binary op left read.1) read.2) _ rest
      cases right with
      | none =>
          exact Derails.bind hright fun value text hminus => moreOperands_of_minus fuel _ hminus
      | some right =>
          have hok : operand (' ' :: text) = .ok (right, rest) := hright
          rw [hok]
          exact ⟨fuel, by omega, rfl⟩

end Loop

end Grammar

open Grammar

/-- A text that is read as an operand of a strength, wherever it stops. -/
structure OperandText (inner : GoalReader) (scopes : Scopes) (strength : Nat) (text : Text)
    (expected : Option Expression) : Prop where
  tight : strength = unaryPrecedence → ∀ rest, Stops unaryPrecedence rest →
    ReadsAs (operand inner scopes (text ++ rest)) expected rest
  leads : ∀ height, strength + height = 5 → ∀ rest, Stops (strength + 1) rest →
    Leads (operatorsAt strength) (strata inner scopes height)
      (strata inner scopes (height + 1) (text ++ rest)) expected rest

namespace OperandText

variable {inner : GoalReader} {scopes : Scopes} {strength strength' : Nat} {text rest : Text}
  {expected : Option Expression}

theorem of_tight (h : ∀ rest, Stops unaryPrecedence rest →
    ReadsAs (operand inner scopes (text ++ rest)) expected rest) :
    OperandText inner scopes unaryPrecedence text expected where
  tight := fun _ => h
  leads := fun height hheight => by
    have hsix : unaryPrecedence = 6 := rfl
    omega

theorem reads (h : OperandText inner scopes strength text expected) {height : Nat}
    (hheight : strength + height = 6) (hrest : Stops strength rest) :
    ReadsAs (strata inner scopes height (text ++ rest)) expected rest := by
  cases height with
  | zero =>
      obtain rfl : strength = 6 := by omega
      exact h.tight rfl rest hrest
  | succ height =>
      have hleads := h.leads height (by omega) rest (hrest.mono (Nat.le_succ _))
      exact hleads.reads (hrest.operator? fun op hop => Nat.le_of_eq (precedence_of_mem hop).symm)

theorem loosen_succ (h : OperandText inner scopes (strength + 1) text expected)
    (hstrength : strength ≤ 5) : OperandText inner scopes strength text expected where
  tight := fun heq => by
    have hsix : unaryPrecedence = 6 := rfl
    omega
  leads := by
    intro height hheight rest hrest
    have hlevel : 5 - height = strength := by omega
    rw [strata, hlevel]
    exact Leads.of_reads (h.reads (by omega) hrest)

/-- What binds tightly can stand where less is demanded. -/
theorem loosen (h : OperandText inner scopes strength' text expected) (hle : strength ≤ strength')
    (hstrength : strength' ≤ 6) : OperandText inner scopes strength text expected := by
  induction strength' with
  | zero =>
      obtain rfl : strength = 0 := by omega
      exact h
  | succ strength' ih =>
      by_cases heq : strength = strength' + 1
      · rw [heq]
        exact h
      · exact ih (h.loosen_succ (by omega)) (by omega) (by omega)

/-- A whole expression, read from the loosest strength on. -/
theorem expression (h : OperandText inner scopes strength text expected) (hpos : 1 ≤ strength)
    (hstrength : strength ≤ 6) (hrest : Stops 1 rest) :
    ReadsAs (Grammar.expression inner scopes (text ++ rest)) expected rest := by
  have hheight : 1 + 5 = 6 := rfl
  exact (h.loosen hpos hstrength).reads hheight hrest

/-- Two operands with an operator between them. -/
theorem binary {op : BinaryOperator} {left right : Text} {expected' : Option Expression}
    (hleft : OperandText inner scopes op.precedence left expected)
    (hright : OperandText inner scopes (op.precedence + 1) right expected') :
    OperandText inner scopes op.precedence (left ++ ' ' :: op.keyword ++ ' ' :: right)
      (expected.bind fun left => expected'.map fun right => .binary op left right) where
  tight := fun heq => by
    have := (precedence_bounds op).2
    have hsix : unaryPrecedence = 6 := rfl
    omega
  leads := by
    intro height hheight rest hrest
    have hstop : Stops (op.precedence + 1) (' ' :: (op.keyword ++ ' ' :: (right ++ rest))) :=
      Stops.keyword (Nat.lt_succ_self _) _
    have hl := hleft.leads height hheight _ hstop
    have hheight' : op.precedence + 1 + height = 6 := by omega
    have hr := hright.reads hheight' hrest
    rw [← strata_space] at hr
    have htext : left ++ ' ' :: op.keyword ++ ' ' :: right ++ rest =
        left ++ ' ' :: (op.keyword ++ ' ' :: (right ++ rest)) := by simp
    rw [htext]
    refine Leads.binary hl hr ?_
    rw [List.length_append]
    omega

end OperandText

end ODataRequest
