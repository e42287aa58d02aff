import ODataRequest.Proofs.Query.Readers
import ODataRequest.Query.Equality

/-! Where the faults of option values lie. A fault lies in a source if what was unread when it was met is an
end of the source, and what it shows stands there. A result is anchored if its fault lies in the source or
its value is as expected, which for a reader is that it leaves an end of the source. Sequencing keeps this,
and so does every reader of the grammar, so that a level over an anchored reader is anchored. Main
statement: the position of a malformed value is that of a character, or the end, and what was found stands
there. -/

namespace ODataRequest

open Text Unicode Reader

/-- A fault that lies in a source: what was unread is an end of the source and begins with what was
found. -/
inductive Fault.LiesIn (source : Text) : Fault → Prop where
  | unexpected {expected : Expectation} {found : Option Text} {unread : Text} (hunread : unread <:+ source)
      (hfound : ∀ word ∈ found, word ≠ [] ∧ word <+: unread) :
      Fault.LiesIn source (.unexpected expected found unread)
  | literal (e : InvalidLiteral) : Fault.LiesIn source (.literal e)
  | tooDeep : Fault.LiesIn source .tooDeep

/-- A lexeme that lies in a source: it begins and ends there, and its text stands where it begins. -/
structure Lexeme.LiesIn (source : Text) (lexeme : Lexeme) : Prop where
  start : lexeme.start <:+ source
  rest : lexeme.rest <:+ source
  nonempty : lexeme.text ≠ []
  text : lexeme.text <+: lexeme.start
  name : ∀ name, lexeme.token = .name name → lexeme.text = name

/-- A result whose fault lies in a source, or whose value is as expected. -/
def Anchored (source : Text) {α : Type} (Expected : α → Prop) : Except Fault α → Prop
  | .ok value => Expected value
  | .error fault => fault.LiesIn source

/-- A value was read, and an end of the source is left. -/
def LeavesEnd (source : Text) {α : Type} (read : α × Text) : Prop :=
  read.2 <:+ source

/-- An end of the source comes after what was looked for, if that was found. -/
def FindsEnd (source : Text) (found : Option Text) : Prop :=
  ∀ rest ∈ found, rest <:+ source

/-- A reader of the ends of a source. -/
def AnchoredReader (source : Text) {α : Type} (reader : Reader α) : Prop :=
  ∀ {text : Text}, text <:+ source → Anchored source (LeavesEnd source) (reader text)

variable {source text start rest : Text}

namespace Anchored

variable {α β : Type} {Expected : α → Prop} {Expected' : β → Prop} {result : Except Fault α}

theorem bind {next : α → Except Fault β} (h : Anchored source Expected result)
    (hnext : ∀ value, Expected value → Anchored source Expected' (next value)) :
    Anchored source Expected' (result >>= next) := by
  cases result with
  | error fault => exact h
  | ok value => exact hnext value h

theorem map {f : α → β} (h : Anchored source Expected result)
    (hf : ∀ value, Expected value → Expected' (f value)) : Anchored source Expected' (result.map f) := by
  cases result with
  | error fault => exact h
  | ok value => exact hf value h

/-- What was found at the beginning of an end of the source is shown there. -/
theorem error {expected : Expectation} {word : Text} (hstart : start <:+ source) (hword : word ≠ [])
    (hleads : word <+: start) :
    Anchored source Expected (.error (.unexpected expected (some word) start)) := by
  refine .unexpected hstart fun found hfound => ?_
  cases hfound
  exact ⟨hword, hleads⟩

end Anchored

/-! ### Tokens -/

namespace Lexeme

variable {token : Token} {first : Char}

theorem anchored_literalToken (word : Text) :
    Anchored source (fun _ => True) (literalToken word) := by
  rw [literalToken]
  split
  · exact trivial
  · exact .literal _

theorem anchored_scanQuoted (typeName : Text) (hstart : start <:+ source) :
    Anchored source (fun _ => True) (scanQuoted typeName start) := by
  rw [scanQuoted]
  split
  · exact .unexpected hstart fun _ hfound => absurd hfound.symm (Option.some_ne_none _)
  · exact (anchored_literalToken _).map fun _ _ => trivial

theorem anchored_scanNumber (hstart : start <:+ source) (hblank : start.head?.any isWhiteSpace = false)
    (hnonempty : start ≠ []) : Anchored source (fun _ => True) (scanNumber start) := by
  rw [scanNumber]
  dsimp only
  split
  · refine .error hstart ?_ (List.takeWhile_prefix _)
    obtain ⟨first, others, rfl⟩ := List.exists_cons_of_ne_nil hnonempty
    rw [List.takeWhile_cons_of_pos (by simpa using hblank)]
    exact List.cons_ne_nil _ _
  · exact (anchored_literalToken _).map fun _ _ => trivial

theorem anchored_scan (hstart : first :: rest <:+ source) (hblank : isWhiteSpace first = false) :
    Anchored source (fun _ => True) (scan first rest) := by
  have hnumber : Anchored source (fun _ => True) (scanNumber (first :: rest)) :=
    anchored_scanNumber hstart hblank (List.cons_ne_nil _ _)
  rw [scan]
  split
  · exact trivial
  split
  · exact anchored_scanQuoted _ hstart
  split
  · exact trivial
  split
  · split
    · exact hnumber
    · exact trivial
  split
  · exact hnumber
  split
  · rw [scanWord]
    split
    · have hafter : rest.dropWhile isNameContinue <:+ first :: rest :=
        (List.dropWhile_suffix _).trans (List.suffix_cons _ _)
      exact anchored_scanQuoted _ (hafter.trans hstart)
    · exact trivial
  · exact .error hstart (List.cons_ne_nil _ _) (List.prefix_append [first] rest)

/-- What is read as a lexeme of an end of the source lies in the source. -/
theorem liesIn_of_next? {lexeme : Lexeme} (htext : text <:+ source)
    (h : next? text = .ok (some lexeme)) : lexeme.LiesIn source := by
  obtain ⟨blanks, word, rfl, -, hstart, hstands⟩ := stands_of_next? h
  have hword : lexeme.text = word := by
    rw [Lexeme.text, hstart, List.length_append, Nat.add_sub_cancel, List.take_left]
  have hbegins : lexeme.start <:+ source := by
    rw [hstart]
    exact (List.suffix_append blanks _).trans htext
  refine ⟨hbegins, ?_, ?_, ?_, ?_⟩
  · refine List.IsSuffix.trans ?_ hbegins
    rw [hstart]
    exact List.suffix_append word _
  · rw [hword]
    exact hstands.spells.ne_nil
  · rw [hword, hstart]
    exact List.prefix_append word _
  · intro name hname
    rw [hname] at hstands
    cases hstands with
    | name _ _ => exact hword

theorem anchored_next? (htext : text <:+ source) :
    Anchored source (fun next => ∀ lexeme ∈ next, lexeme.LiesIn source) (next? text) := by
  cases hnext : next? text with
  | ok next =>
      rintro lexeme hlexeme
      cases hlexeme
      exact liesIn_of_next? htext hnext
  | error fault =>
      rw [next?] at hnext
      split at hnext
      · cases hnext
      · rename_i first rest hstart
        have hbegins : first :: rest <:+ source := by
          rw [← hstart]
          exact (List.dropWhile_suffix _).trans htext
        have hblank := head?_trimStart text
        rw [hstart] at hblank
        have hscan := anchored_scan hbegins hblank
        cases hresult : scan first rest with
        | ok found =>
            rw [hresult] at hnext
            cases hnext
        | error e =>
            rw [hresult] at hnext hscan
            cases hnext
            exact hscan

end Lexeme

namespace Reader

/-! ### Small readers -/

theorem anchored_unexpected {α : Type} {Expected : α → Prop} (expected : Expectation)
    (htext : text <:+ source) : Anchored source Expected (unexpected expected text) := by
  refine (Lexeme.anchored_next? htext).bind fun next hnext => ?_
  cases next with
  | none => exact .unexpected (List.nil_suffix) nofun
  | some lexeme =>
      have hlexeme := hnext lexeme rfl
      exact .error hlexeme.start hlexeme.nonempty hlexeme.text

theorem anchored_symbol? (mark : Symbol) (htext : text <:+ source) :
    Anchored source (FindsEnd source) (symbol? mark text) := by
  refine (Lexeme.anchored_next? htext).bind fun next hnext => ?_
  split
  · rintro rest hrest
    obtain ⟨-, heq⟩ := Option.ite_none_right_eq_some.mp hrest
    cases heq
    exact (hnext _ rfl).rest
  · exact nofun

theorem anchored_word? (word : Text) (htext : text <:+ source) :
    Anchored source (FindsEnd source) (word? word text) := by
  refine (Lexeme.anchored_next? htext).bind fun next hnext => ?_
  split
  · rintro rest hrest
    obtain ⟨-, heq⟩ := Option.ite_none_right_eq_some.mp hrest
    cases heq
    exact (hnext _ rfl).rest
  · exact nofun

theorem anchored_controlSegment? (segment : Text) (htext : text <:+ source) :
    Anchored source (FindsEnd source) (controlSegment? segment text) := by
  refine (anchored_symbol? .slash htext).bind fun slash hslash => ?_
  cases slash with
  | none => exact nofun
  | some after => exact anchored_word? segment (hslash after rfl)

theorem anchored_symbol (mark : Symbol) (expected : Expectation) (htext : text <:+ source) :
    Anchored source (· <:+ source) (symbol mark expected text) := by
  refine (anchored_symbol? mark htext).bind fun found hfound => ?_
  cases found with
  | none => exact anchored_unexpected expected htext
  | some after => exact hfound after rfl

/-- A name with the texts from it on and after it, all of them in the source. -/
structure NameIn (source : Text) (found : Text × Text × Text) : Prop where
  nonempty : found.1 ≠ []
  shown : found.1 <+: found.2.1
  start : found.2.1 <:+ source
  rest : found.2.2 <:+ source

theorem NameIn.of_lexeme {name : Text} (h : Lexeme.LiesIn source ⟨.name name, start, rest⟩) :
    NameIn source (name, start, rest) := by
  have hname := h.name name rfl
  exact ⟨hname ▸ h.nonempty, hname ▸ h.text, h.start, h.rest⟩

theorem anchored_name (expected : Expectation) (htext : text <:+ source) :
    Anchored source (NameIn source) (name expected text) := by
  refine (Lexeme.anchored_next? htext).bind fun next hnext => ?_
  split
  · exact .of_lexeme (hnext _ rfl)
  · exact anchored_unexpected expected htext

theorem anchored_atEnd (htext : text <:+ source) :
    Anchored source (fun _ => True) (atEnd text) := by
  refine (Lexeme.anchored_next? htext).bind fun next _ => ?_
  cases next with
  | none => exact trivial
  | some _ => exact anchored_unexpected _ htext

theorem anchored_checkMember {name : Text} (h : NameIn source (name, start, rest)) :
    Anchored source (fun _ => True) (checkMember name start) := by
  rw [checkMember]
  split
  · exact .error h.start h.nonempty h.shown
  split
  · exact .error h.start h.nonempty h.shown
  · exact trivial

/-! ### Lists and member paths -/

theorem anchored_moreItems {α : Type} {item : Reader α} (hitem : AnchoredReader source item)
    (fuel : Nat) : AnchoredReader source (moreItems item fuel) := by
  induction fuel with
  | zero => exact fun htext => htext
  | succ fuel ih =>
      intro text htext
      refine (anchored_symbol? .comma htext).bind fun comma hcomma => ?_
      cases comma with
      | none => exact htext
      | some after =>
          refine (hitem (hcomma after rfl)).bind fun (value, rest) hrest => ?_
          exact (ih hrest).bind fun (values, rest) hrest => hrest

theorem anchored_commaList {α : Type} {item : Reader α} (hitem : AnchoredReader source item) :
    AnchoredReader source (commaList item) := fun htext =>
  (hitem htext).bind fun (_, rest) hrest =>
    (anchored_moreItems hitem rest.length hrest).bind fun _ hrest => hrest

theorem anchored_memberNames (fuel : Nat) : AnchoredReader source (memberNames fuel) := by
  induction fuel using Nat.strongRecOn with
  | ind fuel ih =>
      intro text htext
      rw [memberNames.eq_def]
      refine (anchored_name _ htext).bind fun read hname => ?_
      obtain ⟨member, start, rest⟩ := read
      refine (anchored_checkMember hname).bind fun _ _ => ?_
      refine (anchored_symbol? .slash hname.rest).bind fun slash hslash => ?_
      cases slash with
      | none => exact hname.rest
      | some after =>
          refine (Lexeme.anchored_next? (hslash after rfl)).bind fun next _ => ?_
          split
          · split
            · exact hname.rest
            · cases fuel with
              | zero => exact hname.rest
              | succ fuel =>
                  exact (ih fuel (Nat.lt_succ_self fuel) (hslash after rfl)).bind fun _ hrest => hrest
          · exact hname.rest

theorem anchored_memberPath : AnchoredReader source memberPath := fun {text} htext =>
  (anchored_memberNames text.length htext).bind fun _ hrest => hrest

/-! ### Values that are kept as they are -/

theorem plainValue_suffix (isNested : Bool) (text : Text) : (plainValue isNested text).2 <:+ text := by
  rw [plainValue]
  split
  · exact ⟨_, (spanVerbatim_spec 0 false text).1.symm⟩
  · exact List.nil_suffix

theorem anchored_verbatim (isNested : Bool) : AnchoredReader source (verbatim isNested) := by
  intro text htext
  have hrest := (plainValue_suffix isNested text).trans htext
  rw [verbatim]
  dsimp only
  split
  · exact anchored_unexpected _ hrest
  · exact hrest

theorem anchored_plainLiteral {α : Type} (isNested : Bool) (parse : Text → Except InvalidLiteral α) :
    AnchoredReader source (plainLiteral isNested parse) := by
  intro text htext
  rw [plainLiteral]
  dsimp only
  split
  · exact (plainValue_suffix isNested text).trans htext
  · exact .literal _

end Reader

namespace Grammar

/-! ### Operators between operands -/

theorem anchored_operator? (operators : List BinaryOperator) (htext : text <:+ source) :
    Anchored source (fun found => ∀ operator ∈ found, operator.2 <:+ source)
      (operator? operators text) := by
  refine (Lexeme.anchored_next? htext).bind fun next hnext => ?_
  split
  · rintro operator hoperator
    obtain ⟨op, -, rfl⟩ := Option.map_eq_some_iff.mp hoperator
    exact (hnext _ rfl).rest
  · exact nofun

section Operators

variable {operand : Reader Expression} (hoperand : AnchoredReader source operand)

include hoperand

theorem anchored_moreOperands (operators : List BinaryOperator) (fuel : Nat) (left : Expression) :
    AnchoredReader source (moreOperands operators operand fuel left) := by
  induction fuel generalizing left with
  | zero => exact fun htext => htext
  | succ fuel ih =>
      intro text htext
      refine (anchored_operator? operators htext).bind fun found hfound => ?_
      cases found with
      | none => exact htext
      | some found => exact (hoperand (hfound found rfl)).bind fun (right, rest) hrest => ih _ hrest

theorem anchored_leftAssociated (operators : List BinaryOperator) :
    AnchoredReader source (leftAssociated operators operand) := fun htext =>
  (hoperand htext).bind fun (left, rest) hrest =>
    anchored_moreOperands hoperand operators rest.length left hrest

end Operators

section Levels

variable {inner : GoalReader} (hinner : ∀ goal scopes, AnchoredReader source (inner goal scopes))
  (scopes : Scopes)

include hinner

/-! ### Paths -/

theorem anchored_lambda (kind : LambdaKind) (collection : PropertyAccess) :
    AnchoredReader source (lambda inner scopes kind collection) := by
  intro text htext
  have hempty : Anchored source (FindsEnd source) (emptyLambda? kind text) := by
    rw [emptyLambda?]
    split
    · exact anchored_symbol? .closeParen htext
    · exact nofun
  refine hempty.bind fun close hclose => ?_
  cases close with
  | some after => exact hclose after rfl
  | none =>
      refine (anchored_name _ htext).bind fun (binder, start, rest) hname => ?_
      dsimp only
      split
      · exact .error hname.start hname.nonempty hname.shown
      · refine (anchored_symbol _ _ hname.rest).bind fun rest hrest => ?_
        refine (hinner .expression _ hrest).bind fun (body, rest) hrest => ?_
        exact (anchored_symbol _ _ hrest).bind fun rest hrest => hrest

theorem anchored_counted (collection : PropertyAccess) :
    AnchoredReader source (counted inner scopes collection) := by
  intro text htext
  refine (anchored_symbol? .openParen htext).bind fun opened hopened => ?_
  cases opened with
  | none => exact htext
  | some after =>
      refine (hinner (.options .count) _ (hopened after rfl)).bind fun (options, rest) hrest => ?_
      exact (anchored_symbol _ _ hrest).bind fun rest hrest => hrest

omit hinner in
theorem anchored_lambdaStart? (word : Text) (htext : text <:+ source) :
    Anchored source (fun found => ∀ opened ∈ found, opened.2 <:+ source) (lambdaStart? word text) := by
  rw [lambdaStart?]
  split
  · exact nofun
  · refine (anchored_symbol? .openParen htext).bind fun found hfound => ?_
    rintro opened hopened
    obtain ⟨after, hafter, rfl⟩ := Option.map_eq_some_iff.mp hopened
    exact hfound after hafter

theorem anchored_morePath (qualifier : Option Text) (fuel : Nat) (path : List Text) :
    AnchoredReader source (morePath inner scopes qualifier fuel path) := by
  induction fuel using Nat.strongRecOn generalizing path with
  | ind fuel ih =>
      intro text htext
      rw [morePath.eq_def]
      refine (anchored_symbol? .slash htext).bind fun slash hslash => ?_
      cases slash with
      | none => exact htext
      | some after =>
          have hafter := hslash after rfl
          refine (Lexeme.anchored_next? hafter).bind fun next hnext => ?_
          split
          · rename_i word start rest
            have hname : NameIn source (word, start, rest) := .of_lexeme (hnext _ rfl)
            split
            · exact anchored_counted hinner scopes _ hname.rest
            · refine (anchored_lambdaStart? word hname.rest).bind fun opened hopened => ?_
              cases opened with
              | some opened => exact anchored_lambda hinner scopes _ _ (hopened opened rfl)
              | none =>
                  refine (anchored_checkMember hname).bind fun _ _ => ?_
                  cases fuel with
                  | zero => exact hname.rest
                  | succ fuel => exact ih fuel (Nat.lt_succ_self fuel) _ hname.rest
          · exact anchored_unexpected _ hafter

theorem anchored_pathExpression {head : Text} (h : NameIn source (head, start, rest)) :
    Anchored source (LeavesEnd source) (pathExpression inner scopes head start rest) := by
  unfold pathExpression
  split
  · exact anchored_morePath hinner scopes _ _ _ h.rest
  · exact (anchored_checkMember h).bind fun _ _ => anchored_morePath hinner scopes _ _ _ h.rest

/-! ### Operands -/

theorem anchored_call {function after : Text} (h : NameIn source (function, start, rest))
    (hafter : after <:+ source) :
    Anchored source (LeavesEnd source) (call inner scopes function start after) := by
  unfold call
  split
  · exact .error h.start h.nonempty h.shown
  · refine (hinner .arguments scopes hafter).bind fun (arguments, rest) hrest => ?_
    exact (anchored_symbol _ _ hrest).bind fun rest hrest => hrest

theorem anchored_primary : AnchoredReader source (primary inner scopes) := by
  intro text htext
  refine (Lexeme.anchored_next? htext).bind fun next hnext => ?_
  split
  · exact (hnext _ rfl).rest
  · refine (hinner .expression scopes (hnext _ rfl).rest).bind fun (expression, rest) hrest => ?_
    exact (anchored_symbol _ _ hrest).bind fun rest hrest => hrest
  · have hname := NameIn.of_lexeme (hnext _ rfl)
    split
    · exact .error hname.start hname.nonempty hname.shown
    · refine (anchored_symbol? .openParen hname.rest).bind fun opened hopened => ?_
      cases opened with
      | some after => exact anchored_call hinner scopes hname (hopened after rfl)
      | none => exact anchored_pathExpression hinner scopes hname
  · exact anchored_unexpected _ htext

omit hinner in
theorem anchored_checkNumericOperand (htext : text <:+ source) :
    Anchored source (fun _ => True) (checkNumericOperand text) := by
  refine (Lexeme.anchored_next? htext).bind fun next _ => ?_
  split
  · split
    · exact trivial
    · exact anchored_unexpected _ htext
  · exact trivial

theorem anchored_operand : AnchoredReader source (operand inner scopes) := by
  intro text htext
  refine (anchored_word? _ htext).bind fun negated hnegated => ?_
  cases negated with
  | some after => exact (hinner .operand scopes (hnegated after rfl)).bind fun _ hrest => hrest
  | none =>
      refine (anchored_symbol? .minus htext).bind fun minus hminus => ?_
      cases minus with
      | none => exact anchored_primary hinner scopes htext
      | some after =>
          refine (anchored_checkNumericOperand (hminus after rfl)).bind fun _ _ => ?_
          exact (hinner .operand scopes (hminus after rfl)).bind fun _ hrest => hrest

theorem anchored_expression : AnchoredReader source (expression inner scopes) := by
  unfold expression
  iterate 5 apply anchored_leftAssociated
  exact anchored_operand hinner scopes

theorem anchored_arguments : AnchoredReader source (arguments inner scopes) := by
  intro text htext
  refine (anchored_symbol? .closeParen htext).bind fun close _ => ?_
  cases close with
  | some _ => exact htext
  | none => exact anchored_commaList (anchored_expression hinner scopes) htext

/-! ### Values of options -/

omit hinner in
theorem anchored_sortDirection : AnchoredReader source sortDirection := by
  intro text htext
  refine (anchored_word? _ htext).bind fun descending hdescending => ?_
  cases descending with
  | some after => exact hdescending after rfl
  | none =>
      refine (anchored_word? _ htext).bind fun ascending hascending => ?_
      cases ascending with
      | some after => exact hascending after rfl
      | none => exact htext

theorem anchored_orderByItem : AnchoredReader source (orderByItem inner scopes) := fun htext =>
  (anchored_expression hinner scopes htext).bind fun (_, _) hrest =>
    (anchored_sortDirection hrest).bind fun _ hrest => hrest

omit hinner in
theorem anchored_selectItem : AnchoredReader source selectItem := by
  intro text htext
  refine (anchored_symbol? .star htext).bind fun star hstar => ?_
  cases star with
  | some after => exact hstar after rfl
  | none =>
      refine (anchored_memberPath htext).bind fun (path, rest) hrest => ?_
      refine (anchored_controlSegment? _ hrest).bind fun count hcount => ?_
      cases count with
      | some after => exact hcount after rfl
      | none => exact hrest

omit hinner in
theorem anchored_expandTarget : AnchoredReader source expandTarget := by
  intro text htext
  refine (anchored_symbol? .star htext).bind fun star hstar => ?_
  cases star with
  | some after =>
      refine (anchored_controlSegment? _ (hstar after rfl)).bind fun ref href => ?_
      cases ref with
      | some afterRef => exact href afterRef rfl
      | none => exact hstar after rfl
  | none =>
      refine (anchored_memberPath htext).bind fun (path, rest) hrest => ?_
      refine (anchored_controlSegment? _ hrest).bind fun count hcount => ?_
      cases count with
      | some after => exact hcount after rfl
      | none =>
          refine (anchored_controlSegment? _ hrest).bind fun ref href => ?_
          cases ref with
          | some after => exact href after rfl
          | none => exact hrest

theorem anchored_expandItem : AnchoredReader source (expandItem inner scopes) := by
  intro text htext
  refine (anchored_expandTarget htext).bind fun (target, rest) hrest => ?_
  refine (anchored_symbol? .openParen hrest).bind fun opened hopened => ?_
  cases opened with
  | none => exact hrest
  | some after =>
      refine (hinner (.options .expand) _ (hopened after rfl)).bind fun (options, rest) hrest => ?_
      exact (anchored_symbol _ _ hrest).bind fun rest hrest => hrest

theorem anchored_optionValue (option : SystemOption) :
    AnchoredReader source (optionValue inner scopes option) := by
  intro text htext
  cases option with
  | filter => exact (anchored_expression hinner scopes htext).map fun _ hrest => hrest
  | orderBy =>
      exact (anchored_commaList (anchored_orderByItem hinner scopes) htext).map fun _ hrest => hrest
  | select => exact (anchored_commaList anchored_selectItem htext).map fun _ hrest => hrest
  | expand =>
      exact (anchored_commaList (anchored_expandItem hinner scopes) htext).map fun _ hrest => hrest
  | count | top | skip | levels => exact (anchored_plainLiteral _ _ htext).map fun _ hrest => hrest
  | search | apply | format => exact (anchored_verbatim _ htext).map fun _ hrest => hrest

/-! ### Lists of options -/

omit hinner in
theorem anchored_listedOption (kind : OptionListKind) (seen : List SystemOption) {name : Text}
    (h : NameIn source (name, start, rest)) :
    Anchored source (fun _ => True) (listedOption kind seen name start) := by
  rw [listedOption]
  split
  · split
    · exact .error h.start h.nonempty h.shown
    split
    · exact .error h.start h.nonempty h.shown
    · exact trivial
  · exact .error h.start h.nonempty h.shown

omit hinner in
theorem anchored_separator? (htext : text <:+ source) :
    Anchored source (FindsEnd source) (separator? text) := by
  refine (anchored_symbol? .semicolon htext).bind fun semicolon hsemicolon => ?_
  cases semicolon with
  | some after => exact hsemicolon
  | none => exact anchored_symbol? .ampersand htext

theorem anchored_optionList (kind : OptionListKind) (fuel : Nat) (seen : List SystemOption) :
    AnchoredReader source (optionList inner scopes kind fuel seen) := by
  induction fuel using Nat.strongRecOn generalizing seen with
  | ind fuel ih =>
      intro text htext
      rw [optionList.eq_def]
      refine (anchored_name _ htext).bind fun (word, start, rest) hname => ?_
      refine (anchored_listedOption kind seen hname).bind fun option _ => ?_
      refine (anchored_symbol _ _ hname.rest).bind fun rest hrest => ?_
      refine (anchored_optionValue hinner scopes option hrest).bind fun (value, rest) hrest => ?_
      refine (anchored_separator? hrest).bind fun found hfound => ?_
      cases found with
      | none => exact hrest
      | some after =>
          cases fuel with
          | zero => exact hrest
          | succ fuel =>
              exact (ih fuel (Nat.lt_succ_self fuel) _ (hfound after rfl)).bind fun _ hrest => hrest

/-! ### All levels -/

/-- One level over an anchored reader is anchored. -/
theorem anchored_level (goal : Goal) : AnchoredReader source (level inner goal scopes) := by
  intro text htext
  cases goal with
  | operand => exact anchored_operand hinner scopes htext
  | expression => exact anchored_expression hinner scopes htext
  | arguments => exact anchored_arguments hinner scopes htext
  | options kind => exact anchored_optionList hinner scopes kind _ _ htext

end Levels

theorem anchored_nested (depth : Nat) (goal : Goal) (scopes : Scopes) :
    AnchoredReader source (nested depth goal scopes) := by
  induction depth generalizing goal scopes with
  | zero => exact fun _ => .tooDeep
  | succ depth ih => exact anchored_level ih scopes goal

end Grammar

theorem anchored_readWhole {α : Type} {reader : Reader α} (hreader : AnchoredReader source reader) :
    Anchored source (fun _ => True) (readWhole reader source) :=
  (hreader (List.suffix_refl source)).bind fun (_, _) hrest =>
    (anchored_atEnd hrest).bind fun _ _ => trivial

/-- A fault that lies in the source is shown to the caller at the place where it was met. -/
theorem Fault.LiesIn.ofFault {fault : Fault} {option : Text} {maxDepth : Nat} {e : MalformedOption}
    (h : fault.LiesIn source) (he : QueryError.ofFault option source maxDepth fault = .malformed e) :
    e.option = option ∧ ∃ before unread, source = before ++ unread ∧ e.position = utf8Length before ∧
      ∀ found ∈ e.found, found ≠ [] ∧ found <+: unread := by
  cases h with
  | literal | tooDeep => cases he
  | @unexpected expected found unread hunread hfound =>
      obtain ⟨before, rfl⟩ := hunread
      cases he
      refine ⟨rfl, before, unread, rfl, ?_, hfound⟩
      rw [utf8Length_append, Nat.add_sub_cancel]

/-- **Faults point at the text that they show.** If a value is malformed, the error names the option whose
value it is. Its position, which counts bytes, is where a character of the value begins or the value ends,
and what was found, if anything, is not empty and stands exactly there. -/
theorem OptionValue.parse_malformed_position {option : SystemOption} {text : Text} {maxDepth : Nat}
    {e : MalformedOption} (h : OptionValue.parse option text maxDepth = .error (.malformed e)) :
    e.option = option.name ∧ e.position ≤ utf8Length text ∧
      ∃ before unread, text = before ++ unread ∧ e.position = utf8Length before ∧
        ∀ found ∈ e.found, found ≠ [] ∧ found <+: unread := by
  have hnested : ∀ goal scopes, AnchoredReader text (Grammar.nested maxDepth goal scopes) :=
    Grammar.anchored_nested maxDepth
  have hanchored := anchored_readWhole (Grammar.anchored_optionValue hnested [] option)
  rw [OptionValue.parse] at h
  cases hread : readWhole (Grammar.optionValue (Grammar.nested maxDepth) [] option) text with
  | ok value =>
      rw [hread] at h
      cases h
  | error fault =>
      rw [hread] at h hanchored
      obtain ⟨hoption, before, unread, rfl, hposition, hfound⟩ :=
        Fault.LiesIn.ofFault hanchored (Except.error.inj h)
      refine ⟨hoption, ?_, before, unread, rfl, hposition, hfound⟩
      rw [hposition, utf8Length_append]
      exact Nat.le_add_right _ _

/-- The position counts bytes, not characters: the semicolon is the tenth character and the twelfth
byte. -/
theorem OptionValue.parse_malformed_position_bytes :
    let text : Text := "Größe eq ;".toList
    let e : MalformedOption := ⟨"$filter".toList, 11, .expression, some [';']⟩
    OptionValue.parse .filter text 4 = .error (.malformed e) ∧
      e.option = SystemOption.filter.name ∧ e.position ≤ utf8Length text ∧
        ∃ before unread, text = before ++ unread ∧ e.position = utf8Length before ∧
          ∀ found ∈ e.found, found ≠ [] ∧ found <+: unread := by
  intro text e
  have hparse : OptionValue.parse .filter text 4 = .error (.malformed e) := by
    decide +kernel
  exact ⟨hparse, OptionValue.parse_malformed_position hparse⟩

end ODataRequest
