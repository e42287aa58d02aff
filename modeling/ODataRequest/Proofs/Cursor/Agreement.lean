import ODataRequest.Proofs.Cursor.Tracking

/-! The grammar as a run tracks the grammar as a reader. Every part of a level tracks its reader over a run
for the level below, from the operands to the lists of options. Main statement: so do all levels that the
depth limit allows. -/

namespace ODataRequest

open Text Reader

namespace Cursor

namespace Run

variable {input : Input} {text : Text} {pending : List Stage} {s : State}

/-! ### Names that come next -/

/-- A name that comes next is taken. -/
theorem expectName_eq {count : Nat} {name start rest : Text} (h : Looked input text count pending s)
    (hnext : Lexeme.next? text = .ok (some ⟨.name name, start, rest⟩)) (expected : Expectation) :
    ∃ s', (expectName input expected).exec s = (.ok (name, offsetOf input.source start), s') ∧
      Looked input rest (count - 1) [] s' := by
  have hname : Reader.name expected text = .ok (name, start, rest) := by
    rw [Reader.name, hnext]
    rfl
  have hagrees := h.agrees_expectName expected
  rw [hname] at hagrees
  obtain ⟨found, s', hexpect, rfl, hs'⟩ := hagrees.exists_ok
  exact ⟨s', hexpect, hs'⟩

/-- Where a name is missed, nothing after it matters. -/
theorem agrees_missedName {β γ : Type} {Related : β → γ → State → Prop} {count : Nat}
    (h : Looked input text count pending s) (expected : Expectation)
    (hmissed : ∀ name start rest, Lexeme.next? text ≠ .ok (some ⟨.name name, start, rest⟩))
    (next : Text × Nat → Run γ) :
    Agrees input Related (Reader.unexpected expected text) ((expectName input expected >>= next).exec s) := by
  have hread : (Reader.unexpected expected text : Except Fault β) =
      Reader.name expected text >>= fun _ => Reader.unexpected expected text := by
    unfold Reader.name Reader.unexpected
    cases hnext : Lexeme.next? text with
    | error fault => rfl
    | ok next =>
        rcases next with _ | ⟨name | value | mark, start, rest⟩
        · rfl
        · exact absurd hnext (hmissed name start rest)
        · rfl
        · rfl
  rw [hread]
  refine (h.agrees_expectName expected).bind fun name found s' hname _ => ?_
  exact absurd (next?_of_name hname) (hmissed _ _ _)

end Run

/-! ### Paths -/

/-- How far out a stage is at most that a goal has entered since its last token. -/
def Goal.bound : Goal → Nat
  | .operand => 5
  | _ => 21

/-- A run for every goal that reads what a reader reads, from right after a token on. -/
structure Descends (input : Input) (inner : GoalReader) (run : GoalRun) : Prop where
  agrees : ∀ {goal : Goal} {scopes : Scopes} {text : Text} {s : State}, Settled input text [] s →
    Agrees input (Rests input (Goal.bound goal)) (inner goal scopes text) ((run goal scopes).exec s)
  anchored : ∀ {source : Text} (goal : Goal) (scopes : Scopes), AnchoredReader source (inner goal scopes)

namespace Run

variable {input : Input} {text rest start : Text} {pending : List Stage} {s : State}

theorem agrees_emptyLambda (h : Settled input text pending s) (kind : LambdaKind) :
    Agrees input (Eaten input text pending) (Grammar.emptyLambda? kind text)
      ((emptyLambda input kind).exec s) := by
  rw [Grammar.emptyLambda?, emptyLambda]
  split
  · exact h.agrees_eat (by decide)
  · exact .left h

/-- A look at the lambda that may begin with a name behind a slash. -/
theorem agrees_peekLambda {after word : Text} (h : Looked input text 2 pending s)
    (hslash : symbol? .slash text = .ok (some after))
    (hnext : Lexeme.next? after = .ok (some ⟨.name word, start, rest⟩)) :
    Agrees input (fun found kind s' => kind = found.map Prod.fst ∧
        ∃ count ≤ 3, Looked input text count pending s')
      (Grammar.lambdaStart? word rest) ((peekLambda input).exec s) := by
  have hpeek := h.agrees_peek (lookAt_slash hslash)
  rw [hnext] at hpeek
  obtain ⟨_, s', hpeek, rfl, hs'⟩ := hpeek.exists_ok
  rw [peekLambda, bind_ok hpeek, Grammar.lambdaStart?]
  dsimp only [Option.map_some]
  cases Grammar.lambdaKind? word with
  | none => exact ⟨rfl, 2, by decide, hs'⟩
  | some kind =>
      have hlook : lookAt 2 text = Lexeme.next? rest := by
        obtain ⟨_, hnextSlash⟩ := next?_of_symbol? hslash
        rw [lookAt, hnextSlash]
        show lookAt 1 after = _
        rw [lookAt, hnext]
        rfl
      refine (hs'.agrees_peekSymbol hlook .openParen).bind fun opened is s' _ hpeek => ?_
      obtain ⟨rfl, hs'⟩ := hpeek
      refine ⟨?_, 3, by decide, hs'⟩
      cases opened <;> rfl

/-- No lambda begins behind a slash where no name does. -/
theorem peekLambda_of_missed {after : Text} {next : Option Lexeme} (h : Looked input text 2 pending s)
    (hslash : symbol? .slash text = .ok (some after)) (hnext : Lexeme.next? after = .ok next)
    (hmissed : ∀ name start rest, next ≠ some ⟨.name name, start, rest⟩) :
    ∃ s', (peekLambda input).exec s = (.ok none, s') ∧ Looked input text 2 pending s' := by
  have hpeek := h.agrees_peek (lookAt_slash hslash)
  rw [hnext] at hpeek
  obtain ⟨_, s', hpeek, rfl, hs'⟩ := hpeek.exists_ok
  refine ⟨s', ?_, hs'⟩
  rw [peekLambda, bind_ok hpeek]
  rcases next with _ | ⟨name | value | mark, start, rest⟩
  · rfl
  · exact absurd rfl (hmissed name start rest)
  · rfl
  · rfl

/-- The member behind a slash is taken with it. -/
theorem agrees_takeMember {count : Nat} {after word : Text} (h : Looked input text count pending s)
    (hcount : count ≤ 3) (hslash : symbol? .slash text = .ok (some after))
    (hnext : Lexeme.next? after = .ok (some ⟨.name word, start, rest⟩)) :
    Agrees input (fun _ name s' => name = word ∧ Settled input rest [] s')
      (Reader.checkMember word start) ((takeMember input).exec s) := by
  obtain ⟨_, hnextSlash⟩ := next?_of_symbol? hslash
  obtain ⟨s₁, hadvance, hs₁⟩ := h.advance_eq hnextSlash
  obtain ⟨s₂, hexpect, hs₂⟩ := expectName_eq hs₁ hnext .propertyNameAfterSlash
  rw [takeMember, bind_ok hadvance, bind_ok hexpect]
  refine (agrees_checkMember hs₂.lawful word start).onward fun _ _ s' _ heq => ?_
  subst heq
  exact ⟨rfl, hs₂.settled (by omega)⟩

/-- Where no name stands behind a slash, nothing after it matters. -/
theorem agrees_missedMember {β γ : Type} {Related : β → γ → State → Prop} {count : Nat}
    {after : Text} (h : Looked input text count pending s) (hslash : symbol? .slash text = .ok (some after))
    (hmissed : ∀ name start rest, Lexeme.next? after ≠ .ok (some ⟨.name name, start, rest⟩))
    (next : Text → Run γ) :
    Agrees input Related (Reader.unexpected .propertyNameAfterSlash after)
      ((takeMember input >>= next).exec s) := by
  obtain ⟨_, hnextSlash⟩ := next?_of_symbol? hslash
  obtain ⟨s', hadvance, hs'⟩ := h.advance_eq hnextSlash
  rw [takeMember, bind_assoc, bind_ok hadvance, bind_assoc]
  exact agrees_missedName hs' _ hmissed _

section Levels

variable {inner : GoalReader} {run : GoalRun} (hinner : Descends input inner run) (scopes : Scopes)

include hinner

/-- What nests is read on both sides up to its closing parenthesis. -/
theorem agrees_enclosed (goal : Goal) {stack : Scopes} {β : Type} (finish : goal.Value → β)
    {expectation : Expectation} (h : Settled input text [] s) (bound : Nat) :
    Agrees input (Rests input bound)
      (do
        let read ← inner goal stack text
        let rest ← Reader.symbol .closeParen expectation read.2
        .ok (finish read.1, rest))
      ((do
        let value ← run goal stack
        expect input .closeParen expectation
        pure (finish value)).exec s) := by
  refine (hinner.agrees h).bind fun read value s' _ hrests => ?_
  obtain ⟨rfl, pending, -, hs'⟩ := hrests
  refine (hs'.agrees_expect (by decide) _).bind fun rest _ s' _ hs' => ?_
  exact hs'.rests (by decide) bound _

theorem agrees_lambda (h : Settled input text [] s) (kind : LambdaKind) (collection : PropertyAccess) :
    Agrees input (Rests input 0) (Grammar.lambda inner scopes kind collection text)
      ((lambda input run scopes kind collection).exec s) := by
  obtain ⟨s', henter, hs'⟩ := h.enter (List.not_mem_nil (a := Stage.lambda))
  rw [Grammar.lambda, lambda, bind_ok henter]
  refine (agrees_emptyLambda hs' kind).bind fun close eaten s' _ heaten => ?_
  cases heaten with
  | taken hs' => exact hs'.rests (by decide) 0 _
  | left hs' =>
      refine (hs'.agrees_expectName _).bind fun name found s' _ hfound => ?_
      obtain ⟨binder, start, rest⟩ := name
      obtain ⟨rfl, hs'⟩ := hfound
      dsimp only
      split
      · exact agrees_reject hs'.lawful _ _ _
      · refine ((hs'.settled (by decide)).agrees_expect (by decide) _).bind fun rest _ s' _ hs' => ?_
        exact agrees_enclosed hinner .expression
          (fun body : Expression => Expression.lambda kind collection (some binder) (some body))
          (hs'.settled (by decide)) 0

theorem agrees_counted (h : Settled input text [] s) (collection : PropertyAccess) :
    Agrees input (Rests input 0) (Grammar.counted inner scopes collection text)
      ((counted input run scopes collection).exec s) := by
  rw [Grammar.counted, counted]
  refine (h.agrees_eat (by decide)).bind fun opened eaten s' _ heaten => ?_
  cases heaten with
  | left hs' => exact hs'.rests 0 _
  | taken hs' =>
      exact agrees_enclosed hinner (.options .count) (Expression.subquery collection)
        (hs'.settled (by decide)) 0

theorem agrees_morePath (qualifier : Option Text) {fuel turns : Nat} {path : List Text}
    (hfuel : text.length ≤ fuel) (hturns : text.length < turns) (h : Settled input text [] s) :
    Agrees input (Rests input 1) (Grammar.morePath inner scopes qualifier fuel path text)
      ((morePath input run scopes qualifier turns path).exec s) := by
  induction turns generalizing fuel path text s with
  | zero => exact absurd hturns (Nat.not_lt_zero _)
  | succ turns ih =>
      obtain ⟨s', henter, hs'⟩ := h.enter (List.not_mem_nil (a := Stage.pathTurn))
      rw [Grammar.morePath.eq_def, morePath, bind_ok henter]
      refine (hs'.agrees_peekSymbol .slash).bind fun slash is s' hslash hpeek => ?_
      obtain ⟨rfl, hs'⟩ := hpeek
      cases slash with
      | none => exact ⟨rfl, _, (below_nil 1).cons (by decide), hs'⟩
      | some after =>
          obtain ⟨count, hcount, hlooked⟩ := hs'.exists_looked
          rw [Option.isSome_some, if_pos rfl, peekWord, bind_assoc]
          refine (hlooked.agrees_peek (lookAt_slash hslash)).bind fun next token s' hnext hpeek => ?_
          obtain ⟨rfl, hs'⟩ := hpeek
          rw [max_eq_right (show count ≤ 1 + 1 from hcount)] at hs'
          split
          · rename_i word start rest
            dsimp only [Option.map_some]
            rw [pure_bind]
            by_cases hword : word = countSegment
            · obtain ⟨s'', hs'', hadvance⟩ := hs'.advance_segment hslash hnext
              rw [if_pos hword, if_pos (by simp [hword]), hadvance]
              exact (agrees_counted hinner scopes (hs''.settled (by decide)) _).outward (by decide)
            rw [if_neg hword, if_neg (by simp [hword])]
            refine (agrees_peekLambda hs' hslash hnext).bind fun found kind s' hfound hpeek => ?_
            obtain ⟨rfl, count, hcount, hs'⟩ := hpeek
            cases found with
            | some found =>
                obtain ⟨kind, opened⟩ := found
                obtain ⟨_, hnextOpen⟩ := next?_of_symbol? (Grammar.lambdaStart?_eq_some hfound)
                obtain ⟨s₁, hs₁, hadvance⟩ := hs'.advance_segment hslash hnext
                obtain ⟨s₂, hadvance', hs₂⟩ := hs₁.advance_eq hnextOpen
                dsimp only [Option.map_some]
                rw [hadvance, bind_ok hadvance']
                exact (agrees_lambda hinner scopes (hs₂.settled (by omega)) kind _).outward (by decide)
            | none =>
                refine (agrees_takeMember hs' hcount hslash hnext).bind fun _ name s' _ hmember => ?_
                obtain ⟨rfl, hs'⟩ := hmember
                have hlt := length_lt_of_symbol? hslash
                have hlt' := Lexeme.length_lt_of_next? hnext
                dsimp only at hlt'
                cases fuel with
                | zero => omega
                | succ fuel => exact ih (by omega) (by omega) hs'
          · rename_i hmissed
            have hword : next.map Lexeme.token ≠ some (.name countSegment) := by
              intro hname
              obtain ⟨⟨token, start, rest⟩, rfl, rfl⟩ := Option.map_eq_some_iff.mp hname
              exact hmissed _ _ _ rfl
            obtain ⟨s'', hpeek, hs''⟩ := peekLambda_of_missed hs' hslash hnext hmissed
            rw [pure_bind, if_neg (by simpa using hword), bind_ok hpeek]
            refine agrees_missedMember hs'' hslash (fun word start rest hname => ?_) _
            rw [hnext] at hname
            exact hmissed word start rest (Except.ok.inj hname)

theorem agrees_pathExpression {head : Text} (h : Looked input text 2 pending s) (habove : Above 1 pending)
    (hturns : input.source.length < input.turns)
    (hnext : Lexeme.next? text = .ok (some ⟨.name head, start, rest⟩)) :
    Agrees input (Rests input 1) (Grammar.pathExpression inner scopes head start rest)
      ((pathExpression input run scopes).exec s) := by
  obtain ⟨s', henter, hs'⟩ := h.enter (Above.not_mem .path habove)
  obtain ⟨s'', hexpect, hs''⟩ := expectName_eq hs' hnext .propertyName
  have hlength := Nat.lt_of_le_of_lt hs''.suffix.length_le hturns
  rw [pathExpression, bind_ok henter, bind_ok hexpect]
  unfold Grammar.pathExpression
  dsimp only
  split
  · exact agrees_morePath hinner scopes _ (Nat.le_refl _) hlength (hs''.settled (by decide))
  · refine (agrees_checkMember hs''.lawful head start).bind fun _ _ _ _ heq => ?_
    subst heq
    exact agrees_morePath hinner scopes _ (Nat.le_refl _) hlength (hs''.settled (by decide))

/-! ### Operands -/

theorem agrees_call {function after : Text} (h : Looked input text 2 pending s) (habove : Above 3 pending)
    (hnext : Lexeme.next? text = .ok (some ⟨.name function, start, rest⟩))
    (hopen : symbol? .openParen rest = .ok (some after)) :
    Agrees input (Rests input 0) (Grammar.call inner scopes function start after)
      ((call input run scopes).exec s) := by
  obtain ⟨s', henter, hs'⟩ := h.enter (Above.not_mem .call habove)
  obtain ⟨s'', hexpect, hs''⟩ := expectName_eq hs' hnext .functionName
  rw [call, bind_ok henter, bind_ok hexpect]
  unfold Grammar.call
  dsimp only
  split
  · exact agrees_reject hs''.lawful _ _ _
  · have hopened : Reader.symbol .openParen .expression rest = .ok after := by
      rw [Reader.symbol, hopen]
      rfl
    have hexpect := (hs''.settled (by decide)).agrees_expect (show Symbol.openParen ≠ .slash by decide)
      .expression
    rw [hopened] at hexpect
    obtain ⟨_, s₃, hexpect, hs₃⟩ := hexpect.exists_ok
    rw [bind_ok hexpect]
    exact agrees_enclosed hinner .arguments (Expression.call function) (hs₃.settled (by decide)) 0

theorem tracks_primary (hturns : input.source.length < input.turns) :
    Tracks input 4 (Grammar.primary inner scopes) (primary input run scopes) where
  agrees := by
    intro text pending s h habove
    obtain ⟨s', henter, hs'⟩ := h.enter (Above.not_mem .primary habove)
    rw [Grammar.primary, primary, bind_ok henter]
    refine hs'.agrees_peek.bind fun next token s' hnext hpeek => ?_
    obtain ⟨rfl, hs'⟩ := hpeek
    rcases next with _ | ⟨name | value | mark, start, rest⟩
    · exact hs'.agrees_unexpected _
    · obtain ⟨count, hcount, hlooked⟩ := hs'.looked hnext (by simp)
      have hinward : Above 3 (.primary :: pending) := (habove.mono (by decide)).cons (by decide)
      dsimp only [Option.map_some]
      split
      · rw [← Reader.unexpected_of_name hlooked.suffix hnext]
        exact hs'.agrees_unexpected _
      · refine (hlooked.agrees_peekSymbol (lookAt_one hnext) .openParen).bind
          fun opened is s' hopened hpeek => ?_
        obtain ⟨rfl, hs'⟩ := hpeek
        rw [max_eq_right (show count ≤ 1 + 1 by omega)] at hs'
        cases opened with
        | some after =>
            exact (agrees_call hinner scopes hs' hinward hnext hopened).outward (by decide)
        | none =>
            have hpath := agrees_pathExpression hinner scopes hs' (hinward.mono (by decide)) hturns hnext
            exact hpath.outward (by decide)
    · obtain ⟨s'', hadvance, hs''⟩ := hs'.advance_eq hnext (by simp)
      dsimp only [Option.map_some]
      rw [takeLiteral, bind_ok hadvance]
      exact hs''.rests (by decide) 4 _
    · cases mark with
      | openParen =>
          obtain ⟨s'', hadvance, hs''⟩ := hs'.advance_eq hnext (by simp)
          dsimp only [Option.map_some]
          rw [bind_ok hadvance]
          exact agrees_enclosed hinner .expression id (hs''.settled (by decide)) 4
      | _ => exact hs'.agrees_unexpected _
  anchored := Grammar.anchored_primary hinner.anchored scopes

omit hinner in
theorem agrees_checkNumericOperand (h : Settled input text pending s) :
    Agrees input (fun _ _ s' => Settled input text pending s') (Grammar.checkNumericOperand text)
      ((checkNumericOperand input).exec s) := by
  rw [Grammar.checkNumericOperand, checkNumericOperand]
  refine h.agrees_peek.bind fun next token s' hnext hpeek => ?_
  obtain ⟨rfl, hs'⟩ := hpeek
  rcases next with _ | ⟨name | value | mark, start, rest⟩
  · exact hs'
  · exact hs'
  · dsimp only [Option.map_some]
    split
    · exact hs'
    · exact hs'.agrees_unexpected _
  · exact hs'

theorem tracks_operand (hturns : input.source.length < input.turns) :
    Tracks input 5 (Grammar.operand inner scopes) (operand input run scopes) where
  agrees := by
    intro text pending s h habove
    obtain ⟨s', henter, hs'⟩ := h.enter (Above.not_mem .operand habove)
    rw [Grammar.operand, operand, bind_ok henter]
    refine (hs'.agrees_eatWord _).bind fun negated eaten s' _ heaten => ?_
    cases heaten with
    | taken hs' =>
        refine (hinner.agrees (hs'.settled (by decide))).bind fun read expression s' _ hrests => ?_
        obtain ⟨rfl, hrests⟩ := hrests
        exact ⟨rfl, hrests⟩
    | left hs' =>
        refine (hs'.agrees_eat (by decide)).bind fun minus eaten s' _ heaten => ?_
        cases heaten with
        | taken hs' =>
            refine (agrees_checkNumericOperand (hs'.settled (by decide))).bind fun _ _ s' _ hs' => ?_
            refine (hinner.agrees hs').bind fun read expression s' _ hrests => ?_
            obtain ⟨rfl, hrests⟩ := hrests
            exact ⟨rfl, hrests⟩
        | left hs' =>
            have hinward : Above 4 (.operand :: pending) := (habove.mono (by decide)).cons (by decide)
            exact ((tracks_primary hinner scopes hturns).agrees hs' hinward).outward (by decide)
  anchored := Grammar.anchored_operand hinner.anchored scopes

theorem tracks_expression (hturns : input.source.length < input.turns) :
    Tracks input 16 (Grammar.expression inner scopes) (expression input run scopes) where
  agrees := by
    have htightest := tracks_operand hinner scopes hturns
    have hmultiplicative := tracks_leftAssociated BinaryOperator.multiplicative (show 5 ≤ 5 by decide)
      htightest hturns
    have hadditive := tracks_leftAssociated BinaryOperator.additive (show 4 ≤ 5 by decide)
      hmultiplicative hturns
    have hcomparison := tracks_leftAssociated BinaryOperator.comparison (show 3 ≤ 5 by decide)
      hadditive hturns
    have hconjunctive := tracks_leftAssociated BinaryOperator.conjunctive (show 2 ≤ 5 by decide)
      hcomparison hturns
    have hdisjunctive := tracks_leftAssociated BinaryOperator.disjunctive (show 1 ≤ 5 by decide)
      hconjunctive hturns
    intro text pending s h habove
    obtain ⟨s', henter, hs'⟩ := h.enter (Above.not_mem .expression habove)
    rw [expression, bind_ok henter]
    exact (hdisjunctive.agrees hs' ((habove.mono (by decide)).cons (by decide))).outward (by decide)
  anchored := Grammar.anchored_expression hinner.anchored scopes

theorem agrees_arguments (h : Settled input text [] s) (hturns : input.source.length < input.turns) :
    Agrees input (Rests input 21) (Grammar.arguments inner scopes text)
      ((arguments input run scopes).exec s) := by
  obtain ⟨s', henter, hs'⟩ := h.enter (List.not_mem_nil (a := Stage.arguments))
  rw [Grammar.arguments, arguments, bind_ok henter]
  refine (hs'.agrees_peekSymbol .closeParen).bind fun close is s' _ hpeek => ?_
  obtain ⟨rfl, hs'⟩ := hpeek
  cases close with
  | some _ => exact ⟨rfl, _, (below_nil 21).cons (by decide), hs'⟩
  | none =>
      have hlist := tracks_commaList ((tracks_expression hinner scopes hturns).mono (by decide)) hturns
      exact (hlist.agrees hs' ((above_nil 18).cons (by decide))).outward (by decide)

/-! ### Values of options -/

omit hinner in
theorem agrees_sortDirection {bound : Nat} (h : Settled input text pending s)
    (hpending : Below bound pending) :
    Agrees input (Rests input bound) (Grammar.sortDirection text) ((sortDirection input).exec s) := by
  rw [Grammar.sortDirection, sortDirection]
  refine (h.agrees_eatWord _).bind fun descending eaten s' _ heaten => ?_
  cases heaten with
  | taken hs' => exact hs'.rests (by decide) bound _
  | left hs' =>
      refine (hs'.agrees_eatWord _).bind fun ascending eaten s' _ heaten => ?_
      cases heaten with
      | taken hs' => exact hs'.rests (by decide) bound _
      | left hs' => exact ⟨rfl, pending, hpending, hs'⟩

theorem tracks_orderByItem (hturns : input.source.length < input.turns) :
    Tracks input 16 (Grammar.orderByItem inner scopes) (orderByItem input run scopes) where
  agrees := by
    intro text pending s h habove
    rw [Grammar.orderByItem, orderByItem]
    refine ((tracks_expression hinner scopes hturns).agrees h habove).bind fun read key s' _ hrests => ?_
    obtain ⟨rfl, pending, hpending, hs'⟩ := hrests
    refine (agrees_sortDirection hs' hpending).bind fun read direction s' _ hrests => ?_
    obtain ⟨rfl, hrests⟩ := hrests
    exact ⟨rfl, hrests⟩
  anchored := Grammar.anchored_orderByItem hinner.anchored scopes

omit hinner in
theorem tracks_selectItem (hturns : input.source.length < input.turns) :
    Tracks input 1 Grammar.selectItem (selectItem input) where
  agrees := by
    intro text pending s h habove
    rw [Grammar.selectItem, selectItem]
    refine (h.agrees_eat (by decide)).bind fun star eaten s' _ heaten => ?_
    cases heaten with
    | taken hs' => exact hs'.rests (by decide) 1 _
    | left hs' =>
        refine ((tracks_memberPath hturns).agrees hs' habove).bind fun read path s' _ hrests => ?_
        obtain ⟨rfl, pending, hpending, hs'⟩ := hrests
        refine (hs'.agrees_eatControlSegment _).bind fun count eaten s' _ heaten => ?_
        cases heaten with
        | taken hs' => exact hs'.rests (by decide) 1 _
        | left hs' => exact ⟨rfl, pending, hpending, hs'⟩
  anchored := Grammar.anchored_selectItem

omit hinner in
theorem tracks_expandTarget (hturns : input.source.length < input.turns) :
    Tracks input 1 Grammar.expandTarget (expandTarget input) where
  agrees := by
    intro text pending s h habove
    rw [Grammar.expandTarget, expandTarget]
    refine (h.agrees_eat (by decide)).bind fun star eaten s' _ heaten => ?_
    cases heaten with
    | taken hs' =>
        refine ((hs'.settled (by decide)).agrees_eatControlSegment _).bind fun ref eaten s' _ heaten => ?_
        cases heaten with
        | taken hs' => exact hs'.rests (by decide) 1 _
        | left hs' => exact hs'.rests 1 _
    | left hs' =>
        refine ((tracks_memberPath hturns).agrees hs' habove).bind fun read path s' _ hrests => ?_
        obtain ⟨rfl, pending, hpending, hs'⟩ := hrests
        refine (hs'.agrees_eatControlSegment _).bind fun count eaten s' _ heaten => ?_
        cases heaten with
        | taken hs' => exact hs'.rests (by decide) 1 _
        | left hs' =>
            refine (hs'.agrees_eatControlSegment _).bind fun ref eaten s' _ heaten => ?_
            cases heaten with
            | taken hs' => exact hs'.rests (by decide) 1 _
            | left hs' => exact ⟨rfl, pending, hpending, hs'⟩
  anchored := Grammar.anchored_expandTarget

theorem tracks_expandItem (hturns : input.source.length < input.turns) :
    Tracks input 1 (Grammar.expandItem inner scopes) (expandItem input run scopes) where
  agrees := by
    intro text pending s h habove
    rw [Grammar.expandItem, expandItem]
    refine ((tracks_expandTarget hturns).agrees h habove).bind fun read target s' _ hrests => ?_
    obtain ⟨rfl, pending, hpending, hs'⟩ := hrests
    refine (hs'.agrees_eat (by decide)).bind fun opened eaten s' _ heaten => ?_
    cases heaten with
    | left hs' => exact ⟨rfl, pending, hpending, hs'⟩
    | taken hs' =>
        exact agrees_enclosed hinner (.options .expand) (ExpandItem.mk read.1)
          (hs'.settled (by decide)) 1
  anchored := Grammar.anchored_expandItem hinner.anchored scopes

omit hinner in
theorem agrees_verbatim {bound : Nat} (h : Looked input text 0 pending s) (hpending : Below bound pending)
    (isNested : Bool) :
    Agrees input (Rests input bound) (Reader.verbatim isNested text) ((verbatim input isNested).exec s) := by
  obtain ⟨s', hraw, hs'⟩ := h.rawValue_eq isNested
  rw [Reader.verbatim, verbatim, bind_ok hraw]
  dsimp only
  split
  · exact hs'.agrees_unexpected _
  · exact ⟨rfl, pending, hpending, hs'.settled (by decide)⟩

omit hinner in
theorem agrees_plainLiteral {α : Type} {bound : Nat} (h : Looked input text 0 pending s)
    (hpending : Below bound pending) (isNested : Bool) (parse : Text → Except InvalidLiteral α) :
    Agrees input (Rests input bound) (Reader.plainLiteral isNested parse text)
      ((plainLiteral input isNested parse).exec s) := by
  obtain ⟨s', hraw, hs'⟩ := h.rawValue_eq isNested
  rw [Reader.plainLiteral, plainLiteral, bind_ok hraw]
  dsimp only
  cases parse (Reader.plainValue isNested text).1 with
  | ok value => exact ⟨rfl, pending, hpending, hs'.settled (by decide)⟩
  | error e => exact ⟨rfl, hs'.lawful⟩

theorem agrees_optionValue (h : Looked input text 0 [] s) (hturns : input.source.length < input.turns)
    (option : SystemOption) :
    Agrees input (Rests input 21) (Grammar.optionValue inner scopes option text)
      ((optionValue input run scopes option).exec s) := by
  obtain ⟨s', henter, hs'⟩ := h.enter (List.not_mem_nil (a := Stage.value))
  have hbelow : Below 21 [Stage.value] := (below_nil 21).cons (by decide)
  have habove : Above 18 [Stage.value] := (above_nil 18).cons (by decide)
  have hsettled := hs'.settled (by decide)
  have hlist : ∀ {α : Type} {item : Reader α} {part : Run α}, Tracks input 17 item part →
      Agrees input (Rests input 21) (Reader.commaList item text) ((commaList input part).exec s') :=
    fun hitem => ((tracks_commaList hitem hturns).agrees hsettled habove).outward (by decide)
  have hexpression := tracks_expression hinner scopes hturns
  rw [optionValue, bind_ok henter]
  unfold Grammar.optionValue
  cases option with
  | filter =>
      dsimp only
      have hvalue := hexpression.agrees hsettled (habove.mono (by decide))
      exact .build OptionValue.filter (hvalue.outward (by decide))
  | orderBy =>
      dsimp only
      have hitem := (tracks_orderByItem hinner scopes hturns).mono (show 16 ≤ 17 by decide)
      exact .build OptionValue.orderBy (hlist hitem)
  | select =>
      dsimp only
      have hitem := (tracks_selectItem hturns).mono (show 1 ≤ 17 by decide)
      exact .build OptionValue.select (hlist hitem)
  | expand =>
      dsimp only
      have hitem := (tracks_expandItem hinner scopes hturns).mono (show 1 ≤ 17 by decide)
      exact .build OptionValue.expand (hlist hitem)
  | count => exact .build OptionValue.count (agrees_plainLiteral hs' hbelow _ _)
  | top => exact .build OptionValue.top (agrees_plainLiteral hs' hbelow _ _)
  | skip => exact .build OptionValue.skip (agrees_plainLiteral hs' hbelow _ _)
  | levels => exact .build OptionValue.levels (agrees_plainLiteral hs' hbelow _ _)
  | search => exact .build OptionValue.search (agrees_verbatim hs' hbelow _)
  | apply => exact .build OptionValue.apply (agrees_verbatim hs' hbelow _)
  | format => exact .build OptionValue.format (agrees_verbatim hs' hbelow _)

/-! ### Lists of options -/

omit hinner in
theorem agrees_listedOption (h : s.journal.Lawful input.source) (kind : OptionListKind)
    (seen : List SystemOption) (name start : Text) :
    Agrees input (fun option found s' => found = option ∧ s' = s)
      (Grammar.listedOption kind seen name start)
      ((listedOption input kind seen name (offsetOf input.source start)).exec s) := by
  rw [Grammar.listedOption, listedOption]
  cases SystemOption.ofName? name with
  | none => exact agrees_reject h _ _ _
  | some option =>
      dsimp only
      split
      · exact agrees_reject h _ _ _
      split
      · exact agrees_reject h _ _ _
      · exact ⟨rfl, rfl⟩

omit hinner in
theorem agrees_eatSeparator (h : Settled input text pending s) :
    Agrees input (Eaten input text pending) (Grammar.separator? text) ((eatSeparator input).exec s) := by
  rw [Grammar.separator?, eatSeparator]
  refine (h.agrees_eat (by decide)).bind fun semicolon eaten s' _ heaten => ?_
  cases heaten with
  | taken hs' => exact .taken hs'
  | left hs' => exact hs'.agrees_eat (by decide)

theorem agrees_optionList (hturns : input.source.length < input.turns) (kind : OptionListKind)
    {fuel turns : Nat} {seen : List SystemOption} (hfuel : text.length ≤ fuel)
    (hlength : text.length < turns) (h : Settled input text pending s) (hpending : Stage.optionTurn ∉ pending) :
    Agrees input (Rests input 21) (Grammar.optionList inner scopes kind fuel seen text)
      ((optionList input run scopes kind turns seen).exec s) := by
  induction turns generalizing fuel seen text pending s with
  | zero => exact absurd hlength (Nat.not_lt_zero _)
  | succ turns ih =>
      obtain ⟨s', henter, hs'⟩ := h.enter hpending
      rw [Grammar.optionList.eq_def, optionList, bind_ok henter]
      refine (hs'.agrees_expectName _).bind fun name found s' hname hfound => ?_
      obtain ⟨word, start, rest⟩ := name
      obtain ⟨rfl, hs'⟩ := hfound
      refine (agrees_listedOption hs'.lawful kind seen word start).bind fun _ option _ _ heq => ?_
      obtain ⟨rfl, rfl⟩ := heq
      refine ((hs'.settled (by decide)).agrees_expect (by decide) _).bind fun after _ s' hequals hs' => ?_
      refine (agrees_optionValue hinner scopes hs' hturns option).bind fun read value s' hvalue hrests => ?_
      obtain ⟨rfl, pending, hpending, hs'⟩ := hrests
      refine (agrees_eatSeparator hs').bind fun separator eaten s' hseparator heaten => ?_
      cases heaten with
      | left hs' => exact ⟨rfl, pending, hpending, hs'⟩
      | @taken _ next hs' =>
          have hlt := Lexeme.length_lt_of_next? (next?_of_name hname)
          have hlt' := length_lt_of_symbol? (symbol?_of_symbol hequals)
          have hlt'' := Grammar.length_lt_of_separator? hseparator
          have hle := length_le_of_anchored
            (Grammar.anchored_optionValue hinner.anchored scopes option) hvalue
          dsimp only at hlt hlt'
          cases fuel with
          | zero => omega
          | succ fuel =>
              refine (ih (by omega) (by omega) (hs'.settled (by decide)) (List.not_mem_nil)).bind
                fun reads options s' _ hrests => ?_
              obtain ⟨rfl, hrests⟩ := hrests
              exact ⟨rfl, hrests⟩

/-! ### All levels -/

/-- One level over a run for the level below it. -/
theorem descends_level (hturns : input.source.length < input.turns) :
    Descends input (Grammar.level inner) (level input run) where
  agrees := by
    intro goal scopes text s h
    cases goal with
    | operand => exact (tracks_operand hinner scopes hturns).agrees h (above_nil 5)
    | expression =>
        exact ((tracks_expression hinner scopes hturns).agrees h (above_nil 16)).outward (by decide)
    | arguments => exact agrees_arguments hinner scopes h hturns
    | options kind =>
        obtain ⟨s', henter, hs'⟩ := h.enter (List.not_mem_nil (a := Stage.optionList))
        have hlength := Nat.lt_of_le_of_lt h.suffix.length_le hturns
        show Agrees input _ (Grammar.optionList inner scopes kind text.length [] text)
          ((enter .optionList >>= fun _ => optionList input run scopes kind input.turns []).exec s)
        rw [bind_ok henter]
        exact agrees_optionList hinner scopes hturns kind (Nat.le_refl _) hlength hs' (by decide)
  anchored goal scopes := Grammar.anchored_level hinner.anchored scopes goal

end Levels

/-- All levels that the depth limit allows. -/
theorem descends_nested (hturns : input.source.length < input.turns) (depth : Nat) :
    Descends input (Grammar.nested depth) (nested input depth) := by
  induction depth with
  | zero =>
      refine ⟨fun h => ?_, Grammar.anchored_nested 0⟩
      exact ⟨rfl, h.lawful⟩
  | succ depth ih => exact descends_level ih hturns

end Run

end Cursor

end ODataRequest
