import ODataRequest.Proofs.Query.OptionTexts
import ODataRequest.Proofs.Query.Soundness

/-! Two texts that tell the readers of expressions the same. A relation between texts retells them if the
next tokens of related texts are the same with related texts behind them, and so are the values that are
no expressions. The text that is retold may end earlier, where the other one goes on with a mark that ends
an item. What a reader accepts of the one text it accepts of the other, and leaves related texts unread.
This module has the law for the readers of expressions, over a reader of what nests that has it. -/

namespace ODataRequest

open Text Reader

/-- What the first computation gives, the second one gives up to a relation. -/
def Transfers {α β : Type} (P : α → β → Prop) (first : Except Fault α) (second : Except Fault β) : Prop :=
  ∀ value, first = .ok value → ∃ value', second = .ok value' ∧ P value value'

/-- The same value was read, and related texts are left. -/
inductive Leaves (R : Text → Text → Prop) {α : Type} : α × Text → α × Text → Prop where
  | read {value : α} {rest rest' : Text} (h : R rest rest') : Leaves R (value, rest) (value, rest')

namespace Transfers

variable {R : Text → Text → Prop} {α β α' β' : Type} {P : α → β → Prop} {Q : α' → β' → Prop}
  {first : Except Fault α} {second : Except Fault β}

theorem ok {value : α} {value' : β} (h : P value value') : Transfers P (.ok value) (.ok value') := by
  rintro _ ⟨⟩
  exact ⟨value', rfl, h⟩

theorem of_fails (h : ∀ value, first ≠ .ok value) : Transfers P first second :=
  fun value hvalue => absurd hvalue (h value)

theorem error (fault : Fault) : Transfers P (.error fault) second :=
  of_fails fun _ => nofun

theorem unexpected {expected : Expectation} {text : Text} :
    Transfers P (Reader.unexpected expected text) second :=
  of_fails fun _ h => eq_error_of_unexpected h

theorem bind {next : α → Except Fault α'} {next' : β → Except Fault β'} (h : Transfers P first second)
    (hnext : ∀ value value', first = .ok value → second = .ok value' → P value value' →
      Transfers Q (next value) (next' value')) :
    Transfers Q (first >>= next) (second >>= next') := by
  intro result hresult
  obtain ⟨value, hvalue, hresult⟩ := bind_eq_ok.mp hresult
  obtain ⟨value', hvalue', hrelated⟩ := h value hvalue
  obtain ⟨result', hresult', hQ⟩ := hnext value value' hvalue hvalue' hrelated result hresult
  exact ⟨result', bind_eq_ok.mpr ⟨value', hvalue', hresult'⟩, hQ⟩

/-- What follows a reader goes on with the same value and related texts. -/
theorem read {reading reading' : Except Fault (α × Text)} {next : α × Text → Except Fault α'}
    {next' : α × Text → Except Fault β'} (h : Transfers (Leaves R) reading reading')
    (hnext : ∀ value rest rest', reading = .ok (value, rest) → reading' = .ok (value, rest') →
      R rest rest' → Transfers Q (next (value, rest)) (next' (value, rest'))) :
    Transfers Q (reading >>= next) (reading' >>= next') := by
  refine h.bind fun found found' hfound hfound' hleaves => ?_
  cases hleaves with
  | read hrest => exact hnext _ _ _ hfound hfound' hrest

end Transfers

/-- The marks that end an option among others or in parentheses. -/
def endMarks : List Symbol :=
  [.semicolon, .ampersand, .closeParen]

/-- A token that is not the name of one of some options. -/
def Token.IsOpen (hidden : List SystemOption) (token : Token) : Prop :=
  ∀ option ∈ hidden, token ≠ .name option.name

/-- The region of a list of options. -/
def OptionListKind.scope : OptionListKind → Scope
  | .count => .subquery
  | .expand => .expand

/-- No range variable has the name of one of some options. -/
def Scopes.Free (hidden : List SystemOption) (scopes : Scopes) : Prop :=
  ∀ option ∈ hidden, scopes.binds option.name = false

/-- What comes next in a text and in the text that retells it. -/
inductive NextAlike (hidden : List SystemOption) (R : Text → Text → Prop) :
    Option Lexeme → Option Lexeme → Prop where
  | ended : NextAlike hidden R none none
  /-- The first one has ended where a mark ends it in the second. -/
  | closed {mark : Symbol} {start rest : Text} (hmark : mark ∈ endMarks) :
      NextAlike hidden R none (some ⟨.symbol mark, start, rest⟩)
  /-- The same token comes next. Behind the name of a hidden option its value has yet to be found. -/
  | token {token : Token} {start start' rest rest' : Text} (h : token.IsOpen hidden → R rest rest') :
      NextAlike hidden R (some ⟨token, start, rest⟩) (some ⟨token, start', rest'⟩)

/-- A relation between texts that tell the readers of expressions the same, with lists of options of some
kinds in them. -/
structure Retells (hidden : List SystemOption) (kinds : List OptionListKind) (R : Text → Text → Prop) :
    Prop where
  hides : ∀ option ∈ hidden, option ∈ [.search, .apply, .format]
  counted : .count ∈ kinds
  next : ∀ {text text' : Text}, R text text' →
    Transfers (NextAlike hidden R) (Lexeme.next? text) (Lexeme.next? text')
  /-- The same value that is no expression comes next, if it ends before a separator. -/
  plain : ∀ {kind : OptionListKind} {option : SystemOption} {text text' after : Text}, kind ∈ kinds →
    kind.allows option = true → option.isExpression = false → R text text' →
    Grammar.Assignment text option after → (spanVerbatim 0 false after).2 ≠ [] →
    ∃ after', Grammar.Assignment text' option after' ∧
      (spanVerbatim 0 false after').1.trim = (spanVerbatim 0 false after).1.trim ∧
      R (spanVerbatim 0 false after).2 (spanVerbatim 0 false after').2

/-- A reader that reads the same from related texts, and never leaves more than there was. -/
structure Steady (R : Text → Text → Prop) {α : Type} (reader : Reader α) : Prop where
  transfers : ∀ {text text' : Text}, R text text' → Transfers (Leaves R) (reader text) (reader text')
  shrinks : ∀ {text rest : Text} {value : α}, reader text = .ok (value, rest) → rest.length ≤ text.length

variable {hidden : List SystemOption} {kinds : List OptionListKind} {R : Text → Text → Prop}
  {text text' start rest : Text}

/-! ### Names that hide what follows -/

theorem SystemOption.head?_name (option : SystemOption) : option.name.head? = some '$' := by
  cases option <;> rfl

namespace Token

theorem isOpen_symbol (mark : Symbol) : (Token.symbol mark).IsOpen hidden :=
  fun _ _ => nofun

theorem isOpen_literal (value : Literal) : (Token.literal value).IsOpen hidden :=
  fun _ _ => nofun

/-- Only names of the protocol hide anything. -/
theorem isOpen_name {word : Text} (h : word.head? ≠ some '$') : (Token.name word).IsOpen hidden := by
  rintro option _ heq
  rw [Token.name.inj heq] at h
  exact h option.head?_name

/-- The segment for references is the name of no option. -/
theorem isOpen_refSegment : (Token.name refSegment).IsOpen hidden := by
  rintro option _ heq
  revert heq
  cases option <;> decide

end Token

/-- The name of an option whose value is made of tokens hides nothing, nor does the segment for a count. -/
theorem Retells.isOpen_option (hR : Retells hidden kinds R) {option : SystemOption}
    (h : option.isExpression = true ∨ option = .count) : (Token.name option.name).IsOpen hidden := by
  intro kept hkept heq
  have hmem := hR.hides kept hkept
  simp only [List.mem_cons, List.not_mem_nil, or_false] at hmem
  revert h heq
  rcases hmem with rfl | rfl | rfl <;> cases option <;> decide

/-! ### Tokens -/

namespace Reader

theorem length_lt_of_symbol? {mark : Symbol} (h : symbol? mark text = .ok (some rest)) :
    rest.length < text.length := by
  obtain ⟨start, hnext⟩ := next?_of_symbol? h
  exact Lexeme.length_lt_of_next? hnext

section Tokens

variable (hR : Retells hidden kinds R) (h : R text text')

include hR h

theorem next?_token {token : Token} (hnext : Lexeme.next? text = .ok (some ⟨token, start, rest⟩))
    (htoken : token.IsOpen hidden) :
    ∃ start' rest', Lexeme.next? text' = .ok (some ⟨token, start', rest'⟩) ∧ R rest rest' := by
  obtain ⟨next', hnext', halike⟩ := hR.next h _ hnext
  cases halike with
  | token hrest => exact ⟨_, _, hnext', hrest htoken⟩

/-- A mark comes next in both texts or in neither, unless it is one at which the first one may end. -/
theorem symbol?_transfers {mark : Symbol} (hmark : mark ∉ endMarks ∨ Lexeme.next? text ≠ .ok none) :
    Transfers (Option.Rel R) (symbol? mark text) (symbol? mark text') := by
  refine (hR.next h).bind fun next next' hnext _ halike => ?_
  cases halike with
  | ended => exact .ok .none
  | @closed found _ _ hfound =>
      have hne : found ≠ mark := by
        rintro rfl
        exact hmark.resolve_right (not_not.mpr hnext) hfound
      dsimp only
      rw [if_neg hne]
      exact .ok .none
  | @token token _ _ _ _ hrest =>
      cases token with
      | name word => exact .ok .none
      | literal value => exact .ok .none
      | symbol found =>
          dsimp only
          split
          · exact .ok (.some (hrest (Token.isOpen_symbol found)))
          · exact .ok .none

theorem symbol_transfers {mark : Symbol} {expected : Expectation} :
    Transfers R (symbol mark expected text) (symbol mark expected text') := by
  intro rest hrest
  have hfound := symbol?_of_symbol hrest
  obtain ⟨start, hnext⟩ := next?_of_symbol? hfound
  have hstarts : Lexeme.next? text ≠ .ok none := by
    rw [hnext]
    nofun
  obtain ⟨found', hfound', hrelated⟩ := symbol?_transfers hR h (Or.inr hstarts) _ hfound
  cases hrelated with
  | @some _ rest' hrelated => exact ⟨rest', by rw [symbol, hfound']; rfl, hrelated⟩

theorem word?_transfers {word : Text} (hword : (Token.name word).IsOpen hidden) :
    Transfers (Option.Rel R) (word? word text) (word? word text') := by
  refine (hR.next h).bind fun next next' _ _ halike => ?_
  cases halike with
  | ended => exact .ok .none
  | closed => exact .ok .none
  | @token token _ _ _ _ hrest =>
      cases token with
      | literal value => exact .ok .none
      | symbol mark => exact .ok .none
      | name found =>
          dsimp only
          split
          · rename_i hfound
            rw [hfound] at hrest
            exact .ok (.some (hrest hword))
          · exact .ok .none

theorem name_transfers {expected : Expectation} :
    Transfers (fun (read read' : Text × Text × Text) => read.1 = read'.1 ∧
      ((Token.name read.1).IsOpen hidden → R read.2.2 read'.2.2))
      (name expected text) (name expected text') := by
  refine (hR.next h).bind fun next next' _ _ halike => ?_
  cases halike with
  | ended => exact .unexpected
  | closed => exact .unexpected
  | @token token _ _ _ _ hrest =>
      cases token with
      | literal value => exact .unexpected
      | symbol mark => exact .unexpected
      | name found => exact .ok ⟨rfl, hrest⟩

end Tokens

/-- A name that is a member is none of the protocol. -/
theorem checkMember_transfers {word start start' : Text} :
    Transfers (fun _ _ => word.head? ≠ some '$') (checkMember word start) (checkMember word start') := by
  unfold checkMember
  split
  · exact .error _
  split
  · exact .error _
  · rename_i hprotocol
    exact .ok hprotocol

end Reader

namespace Grammar

/-! ### Lists and operators -/

theorem isOpen_keyword (op : BinaryOperator) : (Token.name op.keyword).IsOpen hidden := by
  apply Token.isOpen_name
  cases op <;> decide

theorem operator?_transfers (hR : Retells hidden kinds R) (h : R text text') (operators : List BinaryOperator) :
    Transfers (Option.Rel (Leaves R)) (operator? operators text) (operator? operators text') := by
  refine (hR.next h).bind fun next next' _ _ halike => ?_
  cases halike with
  | ended => exact .ok .none
  | closed => exact .ok .none
  | @token token _ _ rest rest' hrest =>
      cases token with
      | literal value => exact .ok .none
      | symbol mark => exact .ok .none
      | name word =>
          dsimp only
          cases hfind : operators.find? fun op => op.keyword = word with
          | none => exact .ok .none
          | some op =>
              have hkeyword := List.find?_some hfind
              rw [decide_eq_true_eq] at hkeyword
              rw [← hkeyword] at hrest
              exact .ok (.some (.read (hrest (isOpen_keyword op))))

theorem length_lt_of_operator? {operators : List BinaryOperator} {op : BinaryOperator}
    (h : operator? operators text = .ok (some (op, rest))) : rest.length < text.length := by
  obtain ⟨-, start, hnext⟩ := operator?_eq_some h
  exact Lexeme.length_lt_of_next? hnext

/-- Enough fuel for a text looks for a comma even where nothing is left. -/
theorem moreItems_eq {α : Type} {item : Reader α} {fuel : Nat} (h : text.length ≤ fuel) :
    moreItems item fuel text = (do
      match ← symbol? .comma text with
      | none => .ok ([], text)
      | some rest =>
        let (value, rest) ← item rest
        let (values, rest) ← moreItems item (fuel - 1) rest
        .ok (value :: values, rest)) := by
  cases fuel with
  | zero =>
      rw [List.eq_nil_of_length_eq_zero (Nat.le_zero.mp h)]
      rfl
  | succ fuel => rfl

theorem moreOperands_eq {operators : List BinaryOperator} {operand : Reader Expression} {fuel : Nat}
    {left : Expression} (h : text.length ≤ fuel) :
    moreOperands operators operand fuel left text = (do
      match ← operator? operators text with
      | none => .ok (left, text)
      | some (op, rest) =>
        let (right, rest) ← operand rest
        moreOperands operators operand (fuel - 1) (.binary op left right) rest) := by
  cases fuel with
  | zero =>
      rw [List.eq_nil_of_length_eq_zero (Nat.le_zero.mp h)]
      rfl
  | succ fuel => rfl

section Lists

variable (hR : Retells hidden kinds R)

include hR

theorem moreItems_transfers {α : Type} {item : Reader α} (hitem : Steady R item) {fuel fuel' : Nat}
    (h : R text text') (hfuel : text.length ≤ fuel) (hfuel' : text'.length ≤ fuel') :
    Transfers (Leaves R) (moreItems item fuel text) (moreItems item fuel' text') := by
  induction hlength : text.length using Nat.strongRecOn generalizing fuel fuel' text text' with
  | ind length ih =>
      rw [moreItems_eq hfuel, moreItems_eq hfuel']
      refine (symbol?_transfers hR h (Or.inl (by decide))).bind fun comma comma' hcomma hcomma' hrelated => ?_
      cases hrelated with
      | none => exact .ok (.read h)
      | some hafter =>
          refine (hitem.transfers hafter).read fun value rest rest' hvalue hvalue' hrest => ?_
          have hshorter := hitem.shrinks hvalue
          have hshorter' := hitem.shrinks hvalue'
          have hlt := length_lt_of_symbol? hcomma
          have hlt' := length_lt_of_symbol? hcomma'
          refine (ih rest.length (by omega) hrest (by omega) (by omega) rfl).read
            fun values rest rest' _ _ hrest => ?_
          exact .ok (.read hrest)

theorem commaList_transfers {α : Type} {item : Reader α} (hitem : Steady R item) (h : R text text') :
    Transfers (Leaves R) (commaList item text) (commaList item text') := by
  refine (hitem.transfers h).read fun value rest rest' _ _ hrest => ?_
  refine (moreItems_transfers hR hitem hrest (Nat.le_refl _) (Nat.le_refl _)).read
    fun values rest rest' _ _ hrest => ?_
  exact .ok (.read hrest)

theorem moreOperands_transfers {operators : List BinaryOperator} {operand : Reader Expression}
    (hoperand : Steady R operand) {fuel fuel' : Nat} {left : Expression} (h : R text text')
    (hfuel : text.length ≤ fuel) (hfuel' : text'.length ≤ fuel') :
    Transfers (Leaves R) (moreOperands operators operand fuel left text)
      (moreOperands operators operand fuel' left text') := by
  induction hlength : text.length using Nat.strongRecOn generalizing fuel fuel' left text text' with
  | ind length ih =>
      rw [moreOperands_eq hfuel, moreOperands_eq hfuel']
      refine (operator?_transfers hR h operators).bind fun found found' hfound hfound' hrelated => ?_
      cases hrelated with
      | none => exact .ok (.read h)
      | some hrelated =>
          obtain ⟨hafter⟩ := hrelated
          refine (hoperand.transfers hafter).read fun right rest rest' hright hright' hrest => ?_
          have hshorter := hoperand.shrinks hright
          have hshorter' := hoperand.shrinks hright'
          have hlt := length_lt_of_operator? hfound
          have hlt' := length_lt_of_operator? hfound'
          exact ih rest.length (by omega) hrest (by omega) (by omega) rfl

theorem leftAssociated_steady {operand : Reader Expression} (hoperand : Steady R operand)
    (operators : List BinaryOperator) : Steady R (leftAssociated operators operand) where
  transfers := by
    intro text text' h
    refine (hoperand.transfers h).read fun left rest rest' _ _ hrest => ?_
    exact moreOperands_transfers hR hoperand hrest (Nat.le_refl _) (Nat.le_refl _)
  shrinks := by
    intro text rest value h
    refine leftAssociated_induction (motive := fun rest _ => rest.length ≤ text.length) ?_
      hoperand.shrinks h
    intro op left right after start afterOp afterRight hafter _ hnext hright
    have hlt := Lexeme.length_lt_of_next? hnext
    exact (hoperand.shrinks hright).trans (hlt.le.trans hafter)

end Lists

/-! ### Paths -/

theorem lambdaStart?_transfers (hR : Retells hidden kinds R) {word : Text}
    (h : (Token.name word).IsOpen hidden → R text text') :
    Transfers (Option.Rel (Leaves R)) (lambdaStart? word text) (lambdaStart? word text') := by
  unfold lambdaStart?
  cases hkind : lambdaKind? word with
  | none => exact .ok .none
  | some kind =>
      have hword : (Token.name word).IsOpen hidden := by
        apply Token.isOpen_name
        have hkeyword := List.find?_some hkind
        rw [decide_eq_true_eq] at hkeyword
        rw [← hkeyword]
        cases kind <;> decide
      refine (symbol?_transfers hR (h hword) (Or.inl (by decide))).bind fun opened opened' _ _ hrelated => ?_
      cases hrelated with
      | none => exact .ok .none
      | some hafter => exact .ok (.some (.read hafter))

theorem checkNumericOperand_transfers (hR : Retells hidden kinds R) (h : R text text') :
    Transfers (fun _ _ => True) (checkNumericOperand text) (checkNumericOperand text') := by
  refine (hR.next h).bind fun next next' _ _ halike => ?_
  cases halike with
  | ended => exact .ok trivial
  | closed => exact .ok trivial
  | @token token _ _ _ _ _ =>
      cases token with
      | name word => exact .ok trivial
      | symbol mark => exact .ok trivial
      | literal value =>
          dsimp only
          split
          · exact .ok trivial
          · exact .unexpected

/-! ### Readers that need a token -/

/-- A reader that accepts no text in which nothing comes next. -/
def NeedsToken {α : Type} (reader : Reader α) : Prop :=
  ∀ ⦃text : Text⦄ ⦃read : α × Text⦄, reader text = .ok read → Lexeme.next? text ≠ .ok none

theorem leftAssociated_needsToken {operand : Reader Expression} (h : NeedsToken operand)
    (operators : List BinaryOperator) : NeedsToken (leftAssociated operators operand) := by
  intro text read hread
  obtain ⟨left, hleft, -⟩ := bind_eq_ok.mp hread
  exact h hleft

theorem operand_needsToken (inner : GoalReader) (scopes : Scopes) :
    NeedsToken (operand inner scopes) := by
  rintro text ⟨value, rest⟩ hread hended
  have hnone : ∀ lexeme, Lexeme.next? text ≠ .ok (some lexeme) := by
    rw [hended]
    exact fun _ => nofun
  rcases operand_cases hread with ⟨_, _, hnot, -⟩ | ⟨_, _, hminus, -⟩ | ⟨-, hprimary⟩
  · obtain ⟨_, hnext⟩ := next?_of_word? hnot
    exact hnone _ hnext
  · obtain ⟨_, hnext⟩ := next?_of_symbol? hminus
    exact hnone _ hnext
  · cases hprimary with
    | literal hnext => exact hnone _ hnext
    | group hopen _ _ =>
        obtain ⟨_, hnext⟩ := next?_of_symbol? hopen
        exact hnone _ hnext
    | call hnext _ _ _ => exact hnone _ hnext
    | path hnext _ _ => exact hnone _ hnext

theorem expression_needsToken (inner : GoalReader) (scopes : Scopes) :
    NeedsToken (expression inner scopes) := by
  have hstrata : ∀ height, NeedsToken (strata inner scopes height) := by
    intro height
    induction height with
    | zero => exact operand_needsToken inner scopes
    | succ height ih => exact leftAssociated_needsToken ih _
  exact hstrata 5

/-! ### One level over another -/

/-- A reader of what nests that reads the same from related texts, where no range variable has the name
of a hidden option. A list of options does so if something follows it. -/
structure Retold (hidden : List SystemOption) (kinds : List OptionListKind) (R : Text → Text → Prop)
    (inner : GoalReader) : Prop where
  operand : ∀ {scopes : Scopes} {text text' : Text}, scopes.Free hidden →
    R text text' → Transfers (Leaves R) (inner .operand scopes text) (inner .operand scopes text')
  expression : ∀ {scopes : Scopes} {text text' : Text}, scopes.Free hidden →
    R text text' → Transfers (Leaves R) (inner .expression scopes text) (inner .expression scopes text')
  arguments : ∀ {scopes : Scopes} {text text' : Text}, scopes.Free hidden →
    R text text' → Transfers (Leaves R) (inner .arguments scopes text) (inner .arguments scopes text')
  options : ∀ {kind : OptionListKind} {scopes : Scopes} {text text' rest : Text}
    {options : List ParsedOption}, kind ∈ kinds → scopes.Free hidden → scopes ≠ [] → R text text' →
    inner (.options kind) scopes text = .ok (options, rest) → Lexeme.next? rest ≠ .ok none →
    ∃ rest', inner (.options kind) scopes text' = .ok (options, rest') ∧ R rest rest'

section Levels

variable (hR : Retells hidden kinds R) {inner : GoalReader} (hinner : Retold hidden kinds R inner)
  {scopes : Scopes} (hscopes : scopes.Free hidden)

/-- An identifier hides nothing. -/
theorem isOpen_identifier {binder : Text} (h : isIdentifier binder = true) :
    (Token.name binder).IsOpen hidden := by
  apply Token.isOpen_name
  intro hhead
  cases binder with
  | nil => cases hhead
  | cons c others =>
      cases hhead
      rw [isIdentifier, Bool.and_eq_true] at h
      exact absurd h.1 (by decide)

theorem free_lambda (hscopes : scopes.Free hidden) {binder : Text} (h : isIdentifier binder = true) :
    Scopes.Free hidden (.lambda binder :: scopes) := by
  intro option hoption
  have hbinder : option.name ≠ binder := fun heq =>
    isOpen_identifier h option hoption (congrArg Token.name heq.symm)
  have hbound := hscopes option hoption
  simp only [Scopes.binds, List.contains_cons, Bool.or_eq_false_iff] at hbound ⊢
  exact ⟨by simpa using hbinder, hbound⟩

theorem not_variable_of_free (hscopes : scopes.Free hidden) {option : SystemOption}
    (hoption : option ∈ hidden) : (option.name = implicitVariable || scopes.binds option.name) = false := by
  rw [hscopes option hoption, Bool.or_false]
  cases option <;> decide

/-- A list of options binds no range variable. -/
theorem free_options (hscopes : scopes.Free hidden) (kind : OptionListKind) :
    Scopes.Free hidden (kind.scope :: scopes) := by
  intro option hoption
  have hbound := hscopes option hoption
  simp only [Scopes.binds, List.contains_cons, Bool.or_eq_false_iff] at hbound ⊢
  exact ⟨by cases kind <;> rfl, hbound⟩

include hR hinner hscopes

theorem lambda_transfers (kind : LambdaKind) (collection : PropertyAccess) (h : R text text') :
    Transfers (Leaves R) (lambda inner scopes kind collection text)
      (lambda inner scopes kind collection text') := by
  by_cases hstarts : Lexeme.next? text = .ok none
  · refine .of_fails ?_
    rintro ⟨value, rest⟩ hvalue
    rcases lambda_cases hvalue with ⟨-, hclose⟩ | ⟨_, _, _, _, _, _, hnext, -⟩
    · obtain ⟨_, hnext⟩ := next?_of_symbol? hclose
      rw [hstarts] at hnext
      cases hnext
    · rw [hstarts] at hnext
      cases hnext
  have hempty : Transfers (Option.Rel R) (emptyLambda? kind text) (emptyLambda? kind text') := by
    unfold emptyLambda?
    split
    · exact symbol?_transfers hR h (Or.inr hstarts)
    · exact .ok .none
  refine hempty.bind fun close close' _ _ hclose => ?_
  cases hclose with
  | some hrest => exact .ok (.read hrest)
  | none =>
      refine (name_transfers hR h).bind ?_
      rintro ⟨binder, start, rest⟩ ⟨binder', start', rest'⟩ _ _ ⟨hname, hrest⟩
      obtain rfl : binder = binder' := hname
      dsimp only
      split
      · exact .error _
      rename_i hidentifier
      rw [Bool.not_eq_true, Bool.not_eq_false'] at hidentifier
      refine (symbol_transfers hR (hrest (isOpen_identifier hidentifier))).bind
        fun rest rest' _ _ hrest => ?_
      refine (hinner.expression (free_lambda hscopes hidentifier) hrest).read
        fun body rest rest' _ _ hrest => ?_
      refine (symbol_transfers hR hrest).bind fun rest rest' _ _ hrest => ?_
      exact .ok (.read hrest)

/-- A list of options is read the same up to the parenthesis that closes it. -/
theorem closedOptions_transfers {kind : OptionListKind} (hkind : kind ∈ kinds) {α : Type}
    {expected : Expectation} (build : List ParsedOption → α) (h : R text text') :
    Transfers (Leaves R)
      (do
        let (options, rest) ← inner (.options kind) (kind.scope :: scopes) text
        let rest ← symbol .closeParen expected rest
        .ok (build options, rest))
      (do
        let (options, rest) ← inner (.options kind) (kind.scope :: scopes) text'
        let rest ← symbol .closeParen expected rest
        .ok (build options, rest)) := by
  rintro ⟨value, rest⟩ hvalue
  obtain ⟨⟨options, afterOptions⟩, hoptions, hvalue⟩ := bind_eq_ok.mp hvalue
  obtain ⟨afterClose, hclose, hvalue⟩ := bind_eq_ok.mp hvalue
  cases hvalue
  have hgoes : Lexeme.next? afterOptions ≠ .ok none := by
    obtain ⟨_, hnext⟩ := next?_of_symbol? (symbol?_of_symbol hclose)
    rw [hnext]
    nofun
  obtain ⟨afterOptions', hoptions', hlist⟩ :=
    hinner.options hkind (free_options hscopes kind) (List.cons_ne_nil _ _) h hoptions hgoes
  obtain ⟨afterClose', hclose', hrest⟩ := symbol_transfers hR hlist _ hclose
  refine ⟨_, ?_, .read hrest⟩
  rw [hoptions', ok_bind]
  dsimp only
  rw [hclose', ok_bind]

theorem counted_transfers (collection : PropertyAccess) (h : R text text') :
    Transfers (Leaves R) (counted inner scopes collection text)
      (counted inner scopes collection text') := by
  refine (symbol?_transfers hR h (Or.inl (by decide))).bind fun opened opened' _ _ hrelated => ?_
  cases hrelated with
  | none => exact .ok (.read h)
  | some hafter =>
      exact closedOptions_transfers hR hinner hscopes hR.counted (Expression.subquery collection) hafter

theorem morePath_transfers (qualifier : Option Text) {fuel fuel' : Nat} {path : List Text}
    (h : R text text') (hfuel : text.length ≤ fuel) (hfuel' : text'.length ≤ fuel') :
    Transfers (Leaves R) (morePath inner scopes qualifier fuel path text)
      (morePath inner scopes qualifier fuel' path text') := by
  induction fuel using Nat.strongRecOn generalizing fuel' path text text' with
  | ind fuel ih =>
      rw [morePath.eq_def, morePath.eq_def]
      refine (symbol?_transfers hR h (Or.inl (by decide))).bind fun slash slash' hslash hslash' hrelated => ?_
      cases hrelated with
      | none => exact .ok (.read h)
      | some hafter =>
          have hlt := length_lt_of_symbol? hslash
          have hlt' := length_lt_of_symbol? hslash'
          refine (hR.next hafter).bind fun next next' hnext hnext' halike => ?_
          cases halike with
          | ended => exact .unexpected
          | closed => exact .unexpected
          | @token token _ _ _ _ hrest =>
              cases token with
              | literal value => exact .unexpected
              | symbol mark => exact .unexpected
              | name word =>
                  have hshorter := Lexeme.length_lt_of_next? hnext
                  have hshorter' := Lexeme.length_lt_of_next? hnext'
                  dsimp only at hshorter hshorter' ⊢
                  split
                  · rename_i hcount
                    rw [hcount] at hrest
                    exact counted_transfers hR hinner hscopes _ (hrest (hR.isOpen_option (Or.inr rfl)))
                  refine (lambdaStart?_transfers hR hrest).bind
                    fun opened opened' _ _ hrelated => ?_
                  cases hrelated with
                  | some hrelated =>
                      obtain ⟨hopen⟩ := hrelated
                      exact lambda_transfers hR hinner hscopes _ _ hopen
                  | none =>
                      refine checkMember_transfers.bind fun _ _ _ _ hword => ?_
                      cases fuel with
                      | zero => omega
                      | succ fuel =>
                          cases fuel' with
                          | zero => omega
                          | succ fuel' =>
                              exact ih fuel (Nat.lt_succ_self fuel) (hrest (Token.isOpen_name hword))
                                (by omega) (by omega)

theorem pathExpression_transfers {head start start' : Text}
    (h : (Token.name head).IsOpen hidden → R text text') :
    Transfers (Leaves R) (pathExpression inner scopes head start text)
      (pathExpression inner scopes head start' text') := by
  unfold pathExpression
  split
  · rename_i hvariable
    have hhead : (Token.name head).IsOpen hidden := by
      intro option hoption heq
      rw [Token.name.inj heq, not_variable_of_free hscopes hoption] at hvariable
      cases hvariable
    exact morePath_transfers hR hinner hscopes _ (h hhead) (Nat.le_refl _) (Nat.le_refl _)
  · refine checkMember_transfers.bind fun _ _ _ _ hhead => ?_
    exact morePath_transfers hR hinner hscopes _ (h (Token.isOpen_name hhead)) (Nat.le_refl _)
      (Nat.le_refl _)

/-! ### Operands -/

theorem call_transfers {function start start' : Text} (h : R text text') :
    Transfers (Leaves R) (call inner scopes function start text)
      (call inner scopes function start' text') := by
  unfold call
  split
  · exact .error _
  · refine (hinner.arguments hscopes h).read fun arguments rest rest' _ _ hrest => ?_
    refine (symbol_transfers hR hrest).bind fun rest rest' _ _ hrest => ?_
    exact .ok (.read hrest)

/-- What begins with the name of a hidden option is no primary. -/
theorem primary_transfers (h : R text text') :
    Transfers (Leaves R) (primary inner scopes text) (primary inner scopes text') := by
  refine (hR.next h).bind fun next next' hnext hnext' halike => ?_
  cases halike with
  | ended => exact .unexpected
  | closed => exact .unexpected
  | @token token _ _ rest rest' hrest =>
      cases token with
      | literal value => exact .ok (.read (hrest (Token.isOpen_literal value)))
      | symbol mark =>
          cases mark with
          | openParen =>
              refine (hinner.expression hscopes (hrest (Token.isOpen_symbol _))).read
                fun value rest rest' _ _ hrest => ?_
              refine (symbol_transfers hR hrest).bind fun rest rest' _ _ hrest => ?_
              exact .ok (.read hrest)
          | _ => exact .unexpected
      | name word =>
          dsimp only
          split
          · exact .error _
          by_cases hword : ∃ option ∈ hidden, word = option.name
          · obtain ⟨option, hoption, rfl⟩ := hword
            refine .of_fails ?_
            rintro ⟨value, after⟩ hvalue
            obtain ⟨opened, -, hvalue⟩ := bind_eq_ok.mp hvalue
            split at hvalue
            · obtain ⟨_, _, hprotocol, -⟩ := call_cases hvalue
              exact hprotocol option.head?_name
            · rcases pathExpression_cases hvalue with ⟨hvariable, -⟩ | ⟨-, hcheck, -⟩
              · rw [not_variable_of_free hscopes hoption] at hvariable
                cases hvariable
              · obtain ⟨_, -, hprotocol⟩ := @checkMember_transfers _ _ [] _ hcheck
                exact hprotocol option.head?_name
          · have hafter : R rest rest' := hrest fun option hoption heq =>
              hword ⟨option, hoption, Token.name.inj heq⟩
            refine (symbol?_transfers hR hafter (Or.inl (by decide))).bind
              fun opened opened' _ _ hrelated => ?_
            cases hrelated with
            | none => exact pathExpression_transfers hR hinner hscopes fun _ => hafter
            | some hopen => exact call_transfers hR hinner hscopes hopen

theorem operand_transfers (h : R text text') :
    Transfers (Leaves R) (operand inner scopes text) (operand inner scopes text') := by
  refine (word?_transfers hR h (Token.isOpen_name (by decide))).bind fun negated negated' _ _ hrelated => ?_
  cases hrelated with
  | some hrest =>
      refine (hinner.operand hscopes hrest).read fun value rest rest' _ _ hrest => ?_
      exact .ok (.read hrest)
  | none =>
      refine (symbol?_transfers hR h (Or.inl (by decide))).bind fun minus minus' _ _ hrelated => ?_
      cases hrelated with
      | none => exact primary_transfers hR hinner hscopes h
      | some hrest =>
          refine (checkNumericOperand_transfers hR hrest).bind fun _ _ _ _ _ => ?_
          refine (hinner.operand hscopes hrest).read fun value rest rest' _ _ hrest => ?_
          exact .ok (.read hrest)

variable {levels : Nat} (hsound : Sound levels inner)

include hsound

theorem strata_steady (height : Nat) : Steady R (strata inner scopes height) := by
  induction height with
  | zero => exact ⟨operand_transfers hR hinner hscopes, fun h => (operand_spec hsound h).1.length_le⟩
  | succ height ih => exact leftAssociated_steady hR ih _

theorem expression_steady : Steady R (expression inner scopes) :=
  strata_steady hR hinner hscopes hsound 5

theorem arguments_transfers (h : R text text') :
    Transfers (Leaves R) (arguments inner scopes text) (arguments inner scopes text') := by
  by_cases hended : Lexeme.next? text = .ok none
  · refine .of_fails ?_
    rintro ⟨values, rest⟩ hvalues
    obtain ⟨close, hclose, hvalues⟩ := bind_eq_ok.mp hvalues
    rw [symbol?, hended] at hclose
    cases hclose
    obtain ⟨_, _, _, -, hfirst, -⟩ := commaList_cases hvalues
    exact expression_needsToken inner scopes hfirst hended
  · refine (symbol?_transfers hR h (Or.inr hended)).bind fun close close' _ _ hrelated => ?_
    cases hrelated with
    | some _ => exact .ok (.read h)
    | none => exact commaList_transfers hR (expression_steady hR hinner hscopes hsound) h

end Levels

end Grammar

end ODataRequest
