import ODataRequest.Proofs.Query.RoundTrip

/-! How operators between operands group. Operands that need no parentheses, with operators between
them, are read as the one tree that has them in this order and in which no operator binds tighter than
what stands left of it, nor as tightly as what stands right of it. Such a tree exists because one more
operator can always be put in along the right edge of a tree; there is no other, because every such
tree is written as the very same text. -/

namespace ODataRequest

/-- Operands with operators between them, in the order in which they are written. -/
structure OperatorSequence where
  first : Expression
  others : List (BinaryOperator × Expression)

namespace OperatorSequence

def operands (sequence : OperatorSequence) : List Expression :=
  sequence.first :: sequence.others.map Prod.snd

def renderNext (next : BinaryOperator × Expression) : Text :=
  ' ' :: next.1.keyword ++ ' ' :: next.2.render

/-- The canonical texts of the operands with the operators between them. -/
def render (sequence : OperatorSequence) : Text :=
  sequence.first.render ++ sequence.others.flatMap renderNext

/-- One sequence, an operator, and another sequence. -/
def join (left : OperatorSequence) (op : BinaryOperator) (right : OperatorSequence) :
    OperatorSequence :=
  ⟨left.first, left.others ++ (op, right.first) :: right.others⟩

def append (sequence : OperatorSequence) (next : BinaryOperator × Expression) : OperatorSequence :=
  ⟨sequence.first, sequence.others ++ [next]⟩

theorem operands_join (left : OperatorSequence) (op : BinaryOperator) (right : OperatorSequence) :
    (left.join op right).operands = left.operands ++ right.operands := by
  simp [operands, join]

theorem render_join (left : OperatorSequence) (op : BinaryOperator) (right : OperatorSequence) :
    (left.join op right).render = left.render ++ ' ' :: op.keyword ++ ' ' :: right.render := by
  simp [render, renderNext, join]

end OperatorSequence

namespace Expression

/-- What an expression is made of, from left to right, down to the operands that are no operators
between operands themselves. -/
def inOrder : Expression → OperatorSequence
  | .binary op left right => left.inOrder.join op right.inOrder
  | operand => ⟨operand, []⟩

/-- An expression in which every operator between operands binds at most as tightly as what stands
left of it and less tightly than what stands right of it. -/
def Grouped : Expression → Prop
  | .binary op left right =>
    op.precedence ≤ left.precedence ∧ op.precedence < right.precedence ∧ left.Grouped ∧ right.Grouped
  | _ => True

/-- An expression with an operator and an operand put in at its right edge, as deep as the operator
binds. -/
def extend (next : BinaryOperator × Expression) : Expression → Expression
  | .binary op left right =>
    if op.precedence < next.1.precedence then .binary op left (right.extend next)
    else .binary next.1 (.binary op left right) next.2
  | operand => .binary next.1 operand next.2

/-- An operand of a sequence that is read with at most the given number of levels: it was accepted with
no more of them, it binds at least as tightly as a sign, and no sign in it stands before a literal. -/
structure StandsAlone (maxDepth : Nat) (operand : Expression) : Prop where
  accepted : ∃ raw depth, depth ≤ maxDepth ∧ Expression.parse raw depth = .ok operand
  tight : unaryPrecedence ≤ operand.precedence
  unsigned : operand.negatedLiterals = []

variable {maxDepth levels levels' : Nat} {scopes : Scopes} {expression operand : Expression}
  {next : BinaryOperator × Expression}

theorem Fits.mono (h : expression.Fits scopes levels) (hle : levels ≤ levels') :
    expression.Fits scopes levels' := by
  induction hle with
  | refl => exact h
  | step _ ih => exact ih.succ

theorem StandsAlone.fits (h : operand.StandsAlone maxDepth) : operand.Fits [] maxDepth := by
  obtain ⟨raw, depth, hdepth, hparse⟩ := h.accepted
  exact (fits_of_parse hparse).mono hdepth

/-- What binds at least as tightly as a sign is no operator between operands, and conversely. -/
theorem tight_iff : unaryPrecedence ≤ operand.precedence ↔
    ∀ op left right, operand ≠ .binary op left right := by
  constructor
  · rintro h op left right rfl
    have hop : op.precedence ≤ 5 := (Grammar.precedence_bounds op).2
    exact absurd (Nat.le_trans h hop) (by decide)
  · intro h
    cases operand with
    | binary op left right => exact absurd rfl (h op left right)
    | unary op operand => exact Nat.le_refl _
    | _ => exact Nat.le_succ _

theorem inOrder_of_tight (h : unaryPrecedence ≤ operand.precedence) :
    operand.inOrder = ⟨operand, []⟩ := by
  rw [inOrder]
  exact tight_iff.mp h

theorem grouped_of_tight (h : unaryPrecedence ≤ operand.precedence) : operand.Grouped := by
  rw [Grouped]
  · trivial
  · exact tight_iff.mp h

/-! ### A grouped tree of every sequence -/

/-- What is put in binds as loosely as its operator at most. -/
theorem min_le_precedence_extend (expression : Expression) (next : BinaryOperator × Expression) :
    min expression.precedence next.1.precedence ≤ (expression.extend next).precedence := by
  cases expression with
  | binary op left right =>
      rw [extend]
      split
      · exact Nat.min_le_left _ _
      · exact Nat.min_le_right _ _
  | _ => exact Nat.min_le_right _ _

theorem inOrder_extend (hnext : unaryPrecedence ≤ next.2.precedence) (expression : Expression) :
    (expression.extend next).inOrder = expression.inOrder.append next := by
  have hoperand := inOrder_of_tight hnext
  fun_induction extend next expression with
  | case1 op left right hlt ih =>
      rw [inOrder, ih, inOrder]
      simp [OperatorSequence.join, OperatorSequence.append]
  | case2 op left right hlt =>
      rw [inOrder, hoperand]
      rfl
  | case3 operand hbinary =>
      rw [inOrder, hoperand]
      rfl

theorem grouped_extend (hnext : unaryPrecedence ≤ next.2.precedence) {expression : Expression}
    (h : expression.Grouped) : (expression.extend next).Grouped := by
  have hlt : next.1.precedence < next.2.precedence :=
    Nat.lt_of_lt_of_le (Nat.lt_succ_of_le (Grammar.precedence_bounds next.1).2) hnext
  have hoperand := grouped_of_tight hnext
  fun_induction extend next expression with
  | case1 op left right hop ih =>
      obtain ⟨hleft, hright, hgroupedLeft, hgroupedRight⟩ := h
      have hmin := min_le_precedence_extend right next
      exact ⟨hleft, by omega, hgroupedLeft, ih hgroupedRight⟩
  | case2 op left right hop =>
      exact ⟨Nat.le_of_not_lt hop, hlt, h, hoperand⟩
  | case3 operand hbinary =>
      have htight := tight_iff.mpr hbinary
      have hle := Nat.le_trans (Grammar.precedence_bounds next.1).2 (Nat.le_succ 5)
      exact ⟨Nat.le_trans hle htight, hlt, h, hoperand⟩

theorem exists_grouped (sequence : OperatorSequence)
    (h : ∀ operand ∈ sequence.operands, unaryPrecedence ≤ operand.precedence) :
    ∃ tree : Expression, tree.inOrder = sequence ∧ tree.Grouped := by
  obtain ⟨first, others⟩ := sequence
  induction others using List.reverseRecOn with
  | nil =>
      have hfirst := h first List.mem_cons_self
      exact ⟨first, inOrder_of_tight hfirst, grouped_of_tight hfirst⟩
  | append_singleton others next ih =>
      have hoperands : (⟨first, others ++ [next]⟩ : OperatorSequence).operands =
          (⟨first, others⟩ : OperatorSequence).operands ++ [next.2] := by
        simp [OperatorSequence.operands]
      rw [hoperands, List.forall_mem_append] at h
      obtain ⟨tree, horder, hgrouped⟩ := ih h.1
      have hnext := h.2 next.2 List.mem_cons_self
      refine ⟨tree.extend next, ?_, grouped_extend hnext hgrouped⟩
      rw [inOrder_extend hnext, horder]
      rfl

/-! ### The text of a grouped tree -/

/-- A grouped tree is written without any parentheses between its operands. -/
theorem Grouped.render_eq {expression : Expression} (h : expression.Grouped) :
    expression.render = expression.inOrder.render := by
  fun_induction inOrder expression with
  | case1 op left right ihLeft ihRight =>
      obtain ⟨hleft, hright, hgroupedLeft, hgroupedRight⟩ := h
      rw [OperatorSequence.render_join, ← ihLeft hgroupedLeft, ← ihRight hgroupedRight, render,
        renderOperand, if_neg (Nat.not_lt_of_le hleft), renderOperand,
        if_neg (Nat.not_lt_of_le hright)]
  | case2 operand hbinary =>
      simp [OperatorSequence.render]

/-- A grouped tree of operands that stand alone fits as they do. -/
theorem Grouped.fits {expression : Expression} (h : expression.Grouped)
    (hoperands : ∀ operand ∈ expression.inOrder.operands, operand.StandsAlone maxDepth) :
    expression.Fits [] maxDepth ∧ expression.negatedLiterals = [] := by
  fun_induction inOrder expression with
  | case1 op left right ihLeft ihRight =>
      obtain ⟨hleft, hright, hgroupedLeft, hgroupedRight⟩ := h
      rw [OperatorSequence.operands_join, List.forall_mem_append] at hoperands
      obtain ⟨hfitsLeft, hunsignedLeft⟩ := ihLeft hgroupedLeft hoperands.1
      obtain ⟨hfitsRight, hunsignedRight⟩ := ihRight hgroupedRight hoperands.2
      refine ⟨.binary (.bare hleft hfitsLeft) (.bare hright hfitsRight), ?_⟩
      rw [negatedLiterals, hunsignedLeft, hunsignedRight]
      rfl
  | case2 operand hbinary =>
      have halone := hoperands operand List.mem_cons_self
      exact ⟨halone.fits, halone.unsigned⟩

end Expression

namespace BinaryOperator

/-- The kinds of operators, from those that bind loosest to those that bind tightest. -/
def kinds : List (List BinaryOperator) :=
  [disjunctive, conjunctive, comparison, additive, multiplicative]

/-- Every operator is of one of the kinds, operators of one kind bind alike, those of a later kind bind
tighter, and an operator before one operand tightest. -/
theorem precedence_kinds :
    (∀ op, ∃ kind ∈ kinds, op ∈ kind) ∧
      (∀ kind ∈ kinds, ∀ left ∈ kind, ∀ right ∈ kind, left.precedence = right.precedence) ∧
      kinds.Pairwise (fun looser tighter =>
        ∀ left ∈ looser, ∀ right ∈ tighter, left.precedence < right.precedence) ∧
      ∀ op : BinaryOperator, op.precedence < unaryPrecedence := by
  refine ⟨fun op => ?_, by decide, by decide, fun op => ?_⟩
  · cases op <;> decide
  · cases op <;> decide

end BinaryOperator

namespace OperatorSequence

open Expression

variable {sequence : OperatorSequence} {maxDepth : Nat}

theorem parse_of_grouped {tree : Expression} (horder : tree.inOrder = sequence) (hgrouped : tree.Grouped)
    (h : ∀ operand ∈ sequence.operands, operand.StandsAlone maxDepth) :
    Expression.parse sequence.render maxDepth = .ok tree := by
  subst horder
  obtain ⟨hfits, hunsigned⟩ := hgrouped.fits h
  rw [← hgrouped.render_eq]
  exact (parse_render_iff hfits).mpr (reread_of_negatedLiterals_eq_nil hunsigned)

/-- **Precedence and associativity.** Operands that stand alone, with operators between them, are read
as the one tree of them in this order in which every operator binds at most as tightly as what stands
left of it and less tightly than what stands right of it. -/
theorem parse_grouped (h : ∀ operand ∈ sequence.operands, operand.StandsAlone maxDepth) :
    ∃ tree, Expression.parse sequence.render maxDepth = .ok tree ∧
      ∀ other : Expression, other.inOrder = sequence ∧ other.Grouped ↔ other = tree := by
  obtain ⟨tree, horder, hgrouped⟩ := exists_grouped sequence fun operand hmem => (h operand hmem).tight
  have hparse := parse_of_grouped horder hgrouped h
  refine ⟨tree, hparse, fun other => ?_⟩
  constructor
  · rintro ⟨horder', hgrouped'⟩
    have hother := parse_of_grouped horder' hgrouped' h
    rw [hparse] at hother
    exact (Except.ok.inj hother).symm
  · rintro rfl
    exact ⟨horder, hgrouped⟩

/-- Subtraction groups to the left and binds tighter than a conjunction. -/
theorem parse_grouped_subtractions :
    (∀ operand ∈ (⟨.access ⟨none, ["a".toList]⟩, [(.and, .access ⟨none, ["b".toList]⟩),
        (.sub, .literal (.integer 1)), (.sub, .unary .not (.access ⟨none, ["c".toList]⟩))]⟩ :
          OperatorSequence).operands, operand.StandsAlone 1) ∧
      Expression.parse "a and b sub 1 sub not c".toList 1 =
        .ok (.binary .and (.access ⟨none, ["a".toList]⟩)
          (.binary .sub (.binary .sub (.access ⟨none, ["b".toList]⟩) (.literal (.integer 1)))
            (.unary .not (.access ⟨none, ["c".toList]⟩)))) := by
  have halone : ∀ operand ∈ (⟨.access ⟨none, ["a".toList]⟩, [(.and, .access ⟨none, ["b".toList]⟩),
      (.sub, .literal (.integer 1)), (.sub, .unary .not (.access ⟨none, ["c".toList]⟩))]⟩ :
        OperatorSequence).operands, operand.StandsAlone 1 := by
    simp only [operands, List.map_cons, List.map_nil, List.forall_mem_cons]
    refine ⟨⟨⟨"a".toList, 0, ?_⟩, ?_, rfl⟩, ⟨⟨"b".toList, 0, ?_⟩, ?_, rfl⟩, ⟨⟨"1".toList, 0, ?_⟩, ?_, rfl⟩,
      ⟨⟨"not c".toList, 1, ?_⟩, ?_, rfl⟩, fun _ hmem => absurd hmem List.not_mem_nil⟩
    all_goals decide +kernel
  have hgrouped : (Expression.binary .and (.access ⟨none, ["a".toList]⟩)
      (.binary .sub (.binary .sub (.access ⟨none, ["b".toList]⟩) (.literal (.integer 1)))
        (.unary .not (.access ⟨none, ["c".toList]⟩)))).Grouped :=
    ⟨by decide, by decide, trivial, by decide, by decide, ⟨by decide, by decide, trivial, trivial⟩, trivial⟩
  obtain ⟨tree, hparse, hunique⟩ := parse_grouped halone
  rw [← (hunique _).mp ⟨rfl, hgrouped⟩] at hparse
  exact ⟨halone, hparse⟩

end OperatorSequence

end ODataRequest
