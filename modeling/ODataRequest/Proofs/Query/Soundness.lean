import ODataRequest.Proofs.Query.Inversion

/-! What the grammar gives. Every reader passes what it takes, with quotes and parentheses closed,
and gives a tree that fits the levels and the scopes it was read in. The reader of one level keeps
this law if the reader below it does, so that every iterated reader has it. -/

namespace ODataRequest

open Text Nesting Reader

/-- What the reading of a goal says of the value and of what was taken. A list of options is only
known to be complete where a text follows it. -/
def Goal.Sound (scopes : Scopes) (levels : Nat) : (goal : Goal) → Text → goal.Value → Text → Prop
  | .operand, text, value, rest =>
    Passes 0 text 0 rest ∧ Expression.FitsAt unaryPrecedence scopes levels value
  | .expression, text, value, rest => Passes 0 text 0 rest ∧ Expression.Fits scopes levels value
  | .arguments, text, values, rest =>
    Passes 0 text 0 rest ∧ ∀ value ∈ values, Expression.Fits scopes levels value
  | .options kind, text, values, rest =>
    scopes ≠ [] → rest ≠ [] → Passes 1 text 1 rest ∧ ParsedOption.AllFit kind scopes levels values

namespace Grammar

/-- A reader of what nests within a number of levels: what it gives fits one level less. -/
def Sound (levels : Nat) (inner : GoalReader) : Prop :=
  ∀ {goal : Goal} {scopes : Scopes} {text rest : Text} {value : goal.Value},
    inner goal scopes text = .ok (value, rest) →
      ∃ below, levels = below + 1 ∧ goal.Sound scopes below text value rest

variable {levels : Nat} {inner : GoalReader} {scopes : Scopes} {text start rest : Text}

theorem fitsAt_of_group {demanded : Nat} {operand : Expression} (h : operand.Fits scopes levels) :
    operand.FitsAt demanded scopes (levels + 1) := by
  by_cases hprecedence : operand.precedence < demanded
  · exact .group hprecedence h
  · exact .bare (Nat.le_of_not_lt hprecedence) h.succ

/-- An operand of a tight place fits a looser one. -/
theorem fitsAt_of_le {demanded demanded' : Nat} (hle : demanded ≤ demanded') {operand : Expression}
    (h : operand.FitsAt demanded' scopes levels) : operand.FitsAt demanded scopes levels := by
  cases h with
  | bare hprecedence h => exact .bare (Nat.le_trans hle hprecedence) h
  | group _ h => exact fitsAt_of_group h

/-! ### Operators between operands -/

section Operators

variable {operators : List BinaryOperator} {operand : Reader Expression} {demanded : Nat}

theorem leftAssociated_spec (hstrength : ∀ op ∈ operators, op.precedence = demanded)
    (hoperand : ∀ {text rest : Text} {value : Expression}, operand text = .ok (value, rest) →
      Passes 0 text 0 rest ∧ value.FitsAt (demanded + 1) scopes levels)
    {value : Expression} (h : leftAssociated operators operand text = .ok (value, rest)) :
    Passes 0 text 0 rest ∧ value.FitsAt demanded scopes levels := by
  refine leftAssociated_induction (motive := fun rest value =>
    Passes 0 text 0 rest ∧ value.FitsAt demanded scopes levels) ?_ ?_ h
  · rintro op left right after start afterOp afterRight ⟨hpasses, hleft⟩ hmem hnext hright
    obtain ⟨hmore, hfits⟩ := hoperand hright
    have hprecedence : op.precedence = demanded := hstrength op hmem
    refine ⟨(hpasses.trans (passes_token hnext (by simp) 0)).trans hmore,
      .bare (Nat.le_of_eq hprecedence.symm) (.binary ?_ ?_)⟩
    · rw [hprecedence]
      exact hleft
    · rw [hprecedence]
      exact hfits
  · intro left after hleft
    obtain ⟨hpasses, hfits⟩ := hoperand hleft
    exact ⟨hpasses, fitsAt_of_le (Nat.le_succ _) hfits⟩

end Operators

/-! ### Paths -/

theorem implicitQualifier_eq {qualifier : Text} (h : scopes.implicitQualifier = some qualifier) :
    qualifier = implicitVariable := by
  induction scopes with
  | nil => cases h
  | cons scope outer ih =>
      cases scope with
      | subquery => exact (Option.some.inj h).symm
      | expand => cases h
      | lambda binder => exact ih h

/-- A path in its scopes names the range variable that it starts from. -/
theorem scoped_resolve {qualifier : Option Text} {path : List Text}
    (h : PropertyAccess.Begins scopes qualifier path) :
    (scopes.resolve qualifier path).Scoped scopes := by
  cases h with
  | ranged hvariable hpath => exact ⟨.ranged hvariable hpath, rfl⟩
  | member hhead hfree hnot hpath =>
      cases himplicit : scopes.implicitQualifier with
      | none =>
          have hresolve : ∀ members, scopes.resolve none members = ⟨none, members⟩ := by
            intro members
            rw [Scopes.resolve, himplicit]
            rfl
          rw [hresolve]
          exact ⟨.member hhead hfree hnot hpath, hresolve _⟩
      | some qualifier =>
          have hresolve : ∀ members, scopes.resolve none members = ⟨some qualifier, members⟩ := by
            intro members
            rw [Scopes.resolve, himplicit]
            rfl
          rw [hresolve, implicitQualifier_eq himplicit]
          refine ⟨.ranged ?_ ?_, rfl⟩
          · rw [Scopes.isVariable, decide_eq_true rfl, Bool.true_or, Bool.true_and]
            decide
          · rw [List.all_cons, hhead, hpath]
            rfl

theorem begins_append {qualifier : Option Text} {path : List Text} {member : Text}
    (h : PropertyAccess.Begins scopes qualifier path) (hmember : isMember member = true) :
    PropertyAccess.Begins scopes qualifier (path ++ [member]) := by
  have hall : ∀ {members : List Text}, members.all isMember = true →
      (members ++ [member]).all isMember = true := by
    intro members hmembers
    rw [List.all_append, hmembers, List.all_cons, hmember]
    rfl
  cases h with
  | ranged hvariable hpath => exact .ranged hvariable (hall hpath)
  | member hhead hfree hnot hpath => exact .member hhead hfree hnot (hall hpath)

theorem endPath_fits {qualifier : Option Text} {path : List Text}
    (h : PropertyAccess.Begins scopes qualifier path) :
    (endPath scopes qualifier path).FitsAt primaryPrecedence scopes levels := by
  have hscoped := scoped_resolve h
  cases h with
  | ranged hvariable hpath =>
      cases path with
      | nil => exact .bare (Nat.le_refl _) (.rangeVariable hvariable)
      | cons member path => exact .bare (Nat.le_refl _) (.access hscoped (List.cons_ne_nil _ _))
  | member _ _ _ _ => exact .bare (Nat.le_refl _) (.access hscoped (List.cons_ne_nil _ _))

theorem counted_spec (hinner : Sound levels inner) {collection : PropertyAccess} {value : Expression}
    (hcollection : collection.Scoped scopes)
    (h : counted inner scopes collection text = .ok (value, rest)) :
    Passes 0 text 0 rest ∧ value.FitsAt primaryPrecedence scopes levels := by
  rcases counted_cases h with ⟨rfl, rfl⟩ |
    ⟨options, afterOpen, afterOptions, hopen, hoptions, hclose, rfl⟩
  · exact ⟨Passes.refl 0 _, .bare (Nat.le_refl _) (.count hcollection)⟩
  · obtain ⟨below, rfl, hsound⟩ := hinner hoptions
    obtain ⟨hpasses, hfit⟩ := hsound (List.cons_ne_nil _ _) (ne_nil_of_symbol? hclose)
    exact ⟨((passes_open hopen).trans hpasses).trans (passes_close hclose),
      .bare (Nat.le_refl _) (.subquery hcollection hfit)⟩

theorem lambda_spec (hinner : Sound levels inner) {kind : LambdaKind} {collection : PropertyAccess}
    {value : Expression} (hcollection : collection.Scoped scopes)
    (h : lambda inner scopes kind collection text = .ok (value, rest)) :
    Passes 1 text 0 rest ∧ value.FitsAt primaryPrecedence scopes levels := by
  rcases lambda_cases h with ⟨rfl, hclose⟩ | ⟨binder, start, afterName, afterColon, body, afterBody,
    hnext, hidentifier, hcolon, hbody, hclose, rfl⟩
  · exact ⟨passes_close hclose, .bare (Nat.le_refl _) (.nonempty hcollection)⟩
  · obtain ⟨below, rfl, hpasses, hfits⟩ := hinner hbody
    exact ⟨(((passes_token hnext (by simp) 1).trans (passes_symbol? hcolon rfl)).trans
        hpasses.inner).trans (passes_close hclose),
      .bare (Nat.le_refl _) (.lambda hcollection hidentifier (isName_of_next? hnext) hfits)⟩

theorem endsPath_spec (hinner : Sound levels inner) {qualifier : Option Text} {path : List Text}
    {value : Expression} (hpath : PropertyAccess.Begins scopes qualifier path)
    (h : EndsPath inner scopes qualifier path text value rest) :
    Passes 0 text 0 rest ∧ value.FitsAt primaryPrecedence scopes levels := by
  cases h with
  | stop => exact ⟨Passes.refl 0 _, endPath_fits hpath⟩
  | count hsegment h =>
      obtain ⟨hmore, hfits⟩ := counted_spec hinner (scoped_resolve hpath) h
      exact ⟨hsegment.passes.trans hmore, hfits⟩
  | lambda hsegment hopen h =>
      obtain ⟨hmore, hfits⟩ := lambda_spec hinner (scoped_resolve hpath) h
      exact ⟨(hsegment.passes.trans (passes_open hopen)).trans hmore, hfits⟩

theorem morePath_spec (hinner : Sound levels inner) {qualifier : Option Text} {fuel : Nat}
    {path : List Text} {value : Expression} (hpath : PropertyAccess.Begins scopes qualifier path)
    (h : morePath inner scopes qualifier fuel path text = .ok (value, rest)) :
    Passes 0 text 0 rest ∧ value.FitsAt primaryPrecedence scopes levels := by
  obtain ⟨path', text', ⟨hbegins, hpasses⟩, hends⟩ :=
    morePath_induction (motive := fun path after => PropertyAccess.Begins scopes qualifier path ∧
        Passes 0 text 0 after)
      (fun ⟨hbegins, hpasses⟩ hsegment hmember =>
        ⟨begins_append hbegins hmember, hpasses.trans hsegment.passes⟩)
      ⟨hpath, Passes.refl 0 _⟩ h
  obtain ⟨hmore, hfits⟩ := endsPath_spec hinner hbegins hends
  exact ⟨hpasses.trans hmore, hfits⟩

theorem pathExpression_spec (hinner : Sound levels inner) {head : Text} {value : Expression}
    (hname : Lexeme.isName head = true) (hnot : head ≠ negation) (halias : head.head? ≠ some '@')
    (h : pathExpression inner scopes head start text = .ok (value, rest)) :
    Passes 0 text 0 rest ∧ value.FitsAt primaryPrecedence scopes levels := by
  rcases pathExpression_cases h with ⟨hvariable, h⟩ | ⟨hfree, hcheck, h⟩
  · refine morePath_spec hinner (.ranged ?_ rfl) h
    rw [Scopes.isVariable, hvariable, hname]
    simpa using ⟨hnot, halias⟩
  · exact morePath_spec hinner (.member (isMember_of_checkMember hcheck hname) hfree hnot rfl) h

/-! ### Operands -/

theorem call_spec (hinner : Sound levels inner) {function : Text} {value : Expression}
    (hname : Lexeme.isName function = true) (hnot : function ≠ negation)
    (halias : function.head? ≠ some '@')
    (h : call inner scopes function start text = .ok (value, rest)) :
    Passes 1 text 0 rest ∧ value.FitsAt primaryPrecedence scopes levels := by
  obtain ⟨arguments, afterArguments, hprotocol, harguments, hclose, rfl⟩ := call_cases h
  obtain ⟨below, rfl, hpasses, hall⟩ := hinner harguments
  refine ⟨hpasses.inner.trans (passes_close hclose), .bare (Nat.le_refl _) (.call ?_ hnot hall)⟩
  simp [isMember, hname, halias, hprotocol]

theorem primary_spec (hinner : Sound levels inner) {value : Expression}
    (hword : word? negation text = .ok none) (h : Primary inner scopes text value rest) :
    Passes 0 text 0 rest ∧ value.FitsAt unaryPrecedence scopes levels := by
  cases h with
  | literal hnext =>
      exact ⟨passes_token hnext (by simp) 0,
        .bare (Nat.le_succ _) (.literal (wellFormed_of_next? hnext))⟩
  | group hopen h hclose =>
      obtain ⟨below, rfl, hpasses, hfits⟩ := hinner h
      exact ⟨((passes_open hopen).trans hpasses.inner).trans (passes_close hclose),
        fitsAt_of_group hfits⟩
  | call hnext halias hopen h =>
      obtain ⟨hmore, hfits⟩ :=
        call_spec hinner (isName_of_next? hnext) (ne_of_word? hword hnext) halias h
      exact ⟨((passes_token hnext (by simp) 0).trans (passes_open hopen)).trans hmore,
        fitsAt_of_le (by decide) hfits⟩
  | path hnext halias h =>
      obtain ⟨hmore, hfits⟩ :=
        pathExpression_spec hinner (isName_of_next? hnext) (ne_of_word? hword hnext) halias h
      exact ⟨(passes_token hnext (by simp) 0).trans hmore, fitsAt_of_le (by decide) hfits⟩

theorem operand_spec (hinner : Sound levels inner) {value : Expression}
    (h : operand inner scopes text = .ok (value, rest)) :
    Passes 0 text 0 rest ∧ value.FitsAt unaryPrecedence scopes levels := by
  rcases operand_cases h with ⟨inside, after, hnot, hinside, rfl⟩ |
    ⟨inside, after, hminus, hinside, rfl⟩ | ⟨hword, hprimary⟩
  · obtain ⟨below, rfl, hpasses, hfits⟩ := hinner hinside
    exact ⟨(passes_word? hnot 0).trans hpasses, .bare (Nat.le_refl _) (.unary hfits)⟩
  · obtain ⟨below, rfl, hpasses, hfits⟩ := hinner hinside
    exact ⟨(passes_symbol? hminus rfl).trans hpasses, .bare (Nat.le_refl _) (.unary hfits)⟩
  · exact primary_spec hinner hword hprimary

theorem expression_spec (hinner : Sound levels inner) {value : Expression}
    (h : expression inner scopes text = .ok (value, rest)) :
    Passes 0 text 0 rest ∧ value.Fits scopes levels := by
  have hmultiplicative : ∀ op ∈ BinaryOperator.multiplicative, op.precedence = 5 := by decide
  have hadditive : ∀ op ∈ BinaryOperator.additive, op.precedence = 4 := by decide
  have hcomparison : ∀ op ∈ BinaryOperator.comparison, op.precedence = 3 := by decide
  have hconjunctive : ∀ op ∈ BinaryOperator.conjunctive, op.precedence = 2 := by decide
  have hdisjunctive : ∀ op ∈ BinaryOperator.disjunctive, op.precedence = 1 := by decide
  obtain ⟨hpasses, hfits⟩ :=
    leftAssociated_spec hdisjunctive (leftAssociated_spec hconjunctive
      (leftAssociated_spec hcomparison (leftAssociated_spec hadditive
        (leftAssociated_spec hmultiplicative (operand_spec hinner))))) h
  refine ⟨hpasses, ?_⟩
  cases hfits with
  | bare _ h => exact h
  | group _ h => exact h.succ

theorem arguments_spec (hinner : Sound levels inner) {values : List Expression}
    (h : arguments inner scopes text = .ok (values, rest)) :
    Passes 0 text 0 rest ∧ ∀ value ∈ values, Expression.Fits scopes levels value := by
  rcases arguments_cases h with ⟨rfl, rfl⟩ | h
  · exact ⟨Passes.refl 0 _, by simp⟩
  · obtain ⟨-, hall, hpasses⟩ := commaList_spec
      (fun h => (expression_spec hinner h).symm) h
    exact ⟨hpasses, hall⟩

/-! ### Values of options -/

theorem sortDirection_spec {direction : SortDirection}
    (h : sortDirection text = .ok (direction, rest)) : Passes 0 text 0 rest := by
  rcases sortDirection_cases h with ⟨word, hword⟩ | rfl
  · exact passes_word? hword 0
  · exact Passes.refl 0 _

theorem orderByItem_spec (hinner : Sound levels inner) {item : OrderByItem}
    (h : orderByItem inner scopes text = .ok (item, rest)) :
    item.expression.Fits scopes levels ∧ Passes 0 text 0 rest := by
  obtain ⟨key, direction, after, hkey, hdirection, rfl⟩ := orderByItem_cases h
  obtain ⟨hpasses, hfits⟩ := expression_spec hinner hkey
  exact ⟨hfits, hpasses.trans (sortDirection_spec hdirection)⟩

theorem selectItem_spec {item : SelectItem} (h : selectItem text = .ok (item, rest)) :
    item.WellFormed ∧ Passes 0 text 0 rest := by
  rcases selectItem_cases h with ⟨rfl, hstar⟩ | ⟨route, after, hpath,
    ⟨rfl, hsegment⟩ | ⟨rfl, rfl⟩⟩
  · exact ⟨trivial, passes_symbol? hstar rfl⟩
  · obtain ⟨hmembers, hpasses⟩ := memberPath_spec hpath
    exact ⟨hmembers, hpasses.trans hsegment.passes⟩
  · exact memberPath_spec hpath

theorem expandTarget_spec {target : ExpandTarget} (h : expandTarget text = .ok (target, rest)) :
    target.WellFormed ∧ Passes 0 text 0 rest := by
  obtain ⟨after, hrest, htarget⟩ := expandTarget_cases h
  have hafter : Passes 0 after 0 rest := by
    rcases hrest with rfl | ⟨word, hsegment⟩
    · exact Passes.refl 0 _
    · exact hsegment.passes
  rcases htarget with ⟨hstar, rfl | rfl⟩ | ⟨route, hpath, htarget⟩
  · exact ⟨trivial, (passes_symbol? hstar rfl).trans hafter⟩
  · exact ⟨trivial, (passes_symbol? hstar rfl).trans hafter⟩
  · obtain ⟨hmembers, hpasses⟩ := memberPath_spec hpath
    refine ⟨?_, hpasses.trans hafter⟩
    rcases htarget with rfl | rfl | rfl
    · exact hmembers
    · exact hmembers
    · exact hmembers

theorem expandItem_spec (hinner : Sound levels inner) {item : ExpandItem}
    (h : expandItem inner scopes text = .ok (item, rest)) :
    item.Fits scopes levels ∧ Passes 0 text 0 rest := by
  obtain ⟨target, after, htarget, ⟨rfl, rfl⟩ |
    ⟨options, afterOpen, afterOptions, hopen, hoptions, hclose, rfl⟩⟩ := expandItem_cases h
  · obtain ⟨hwell, hpasses⟩ := expandTarget_spec htarget
    exact ⟨.bare hwell, hpasses⟩
  · obtain ⟨hwell, hpasses⟩ := expandTarget_spec htarget
    obtain ⟨below, rfl, hsound⟩ := hinner hoptions
    obtain ⟨hmore, hfit⟩ := hsound (List.cons_ne_nil _ _) (ne_nil_of_symbol? hclose)
    exact ⟨.options hwell hfit,
      ((hpasses.trans (passes_open hopen)).trans hmore).trans (passes_close hclose)⟩

theorem plainValue_spec (hscopes : scopes ≠ []) (hrest : (plainValue (!scopes.isEmpty) text).2 ≠ []) :
    Closed separates (plainValue (!scopes.isEmpty) text).1 ∧
      Passes 0 text 0 (plainValue (!scopes.isEmpty) text).2 := by
  rw [plainValue_nested hscopes] at hrest ⊢
  obtain ⟨hsplit, hclosed⟩ := spanVerbatim_spec 0 false text
  exact ⟨hclosed hrest, _, hsplit, hclosed hrest⟩

theorem verbatim_spec {value : Text} (hrest : scopes ≠ [] → rest ≠ [])
    (h : verbatim (!scopes.isEmpty) text = .ok (value, rest)) : IsVerbatim scopes value := by
  obtain ⟨rfl, hnonempty, rfl⟩ := verbatim_cases h
  refine ⟨hnonempty, trim_trim _, ?_⟩
  intro hscopes
  exact closed_trim (plainValue_spec hscopes (hrest hscopes)).1

theorem parseNonNegative_spec {raw : Text} {value : Nat} (h : parseNonNegative raw = .ok value) :
    value ≤ Number.maxNatural := by
  rw [parseNonNegative] at h
  split at h
  · rename_i hvalue
    cases h
    exact hvalue.2
  · cases h

theorem parseLevels_spec {raw : Text} {value : Levels} (h : parseLevels raw = .ok value) :
    (OptionValue.levels value).IsPlain scopes .levels := by
  rw [parseLevels] at h
  split at h
  · cases h
    exact .max
  split at h
  · rename_i hbound
    cases h
    exact .depth (parseNonNegative_spec hbound)
  · cases h

/-- The value of an option that is no expression is plain. -/
theorem isPlain_of_optionValue {option : SystemOption} {value : OptionValue}
    (hplain : option.isExpression = false) (hrest : scopes ≠ [] → rest ≠ [])
    (h : optionValue inner scopes option text = .ok (value, rest)) : value.IsPlain scopes option := by
  cases option with
  | filter | orderBy | select | expand => cases hplain
  | count =>
      obtain ⟨⟨wanted, after⟩, -, heq⟩ := map_eq_ok h
      cases heq
      exact .count
  | top =>
      obtain ⟨⟨limit, after⟩, hlimit, heq⟩ := map_eq_ok h
      cases heq
      exact .top (parseNonNegative_spec (plainLiteral_cases hlimit).1)
  | skip =>
      obtain ⟨⟨offset, after⟩, hoffset, heq⟩ := map_eq_ok h
      cases heq
      exact .skip (parseNonNegative_spec (plainLiteral_cases hoffset).1)
  | levels =>
      obtain ⟨⟨bound, after⟩, hbound, heq⟩ := map_eq_ok h
      cases heq
      exact parseLevels_spec (plainLiteral_cases hbound).1
  | search | apply | format =>
      obtain ⟨⟨kept, after⟩, hkept, heq⟩ := map_eq_ok h
      cases heq
      constructor
      exact verbatim_spec hrest hkept

/-- Among other options, the value of an option that is no expression is closed. -/
theorem passes_of_plain {option : SystemOption} {value : OptionValue}
    (hplain : option.isExpression = false) (hscopes : scopes ≠ []) (hrest : rest ≠ [])
    (h : optionValue inner scopes option text = .ok (value, rest)) : Passes 0 text 0 rest := by
  obtain rfl := rest_of_plain hplain hscopes h
  rw [← plainValue_nested hscopes] at hrest ⊢
  exact (plainValue_spec hscopes hrest).2

theorem expressionValue_spec (hinner : Sound levels inner) {option : SystemOption} {value : OptionValue}
    (hexpression : option.isExpression = true)
    (h : optionValue inner scopes option text = .ok (value, rest)) :
    value.Fits scopes levels option ∧ Passes 0 text 0 rest := by
  cases option with
  | filter =>
      obtain ⟨⟨condition, after⟩, hcondition, heq⟩ := map_eq_ok h
      cases heq
      obtain ⟨hpasses, hfits⟩ := expression_spec hinner hcondition
      exact ⟨.filter hfits, hpasses⟩
  | orderBy =>
      obtain ⟨⟨items, after⟩, hitems, heq⟩ := map_eq_ok h
      cases heq
      obtain ⟨hnonempty, hall, hpasses⟩ := commaList_spec (orderByItem_spec hinner) hitems
      exact ⟨.orderBy hnonempty hall, hpasses⟩
  | select =>
      obtain ⟨⟨items, after⟩, hitems, heq⟩ := map_eq_ok h
      cases heq
      obtain ⟨hnonempty, hall, hpasses⟩ := commaList_spec selectItem_spec hitems
      exact ⟨.select hnonempty hall, hpasses⟩
  | expand =>
      obtain ⟨⟨items, after⟩, hitems, heq⟩ := map_eq_ok h
      cases heq
      obtain ⟨hnonempty, hall, hpasses⟩ := commaList_spec (expandItem_spec hinner) hitems
      exact ⟨.expand hnonempty hall, hpasses⟩
  | count | top | skip | levels | search | apply | format => cases hexpression

/-- The value of an option fits; what was taken is closed, except for a whole text that is kept as
it is. -/
theorem optionValue_spec (hinner : Sound levels inner) {option : SystemOption} {value : OptionValue}
    (hrest : scopes ≠ [] → rest ≠ [])
    (h : optionValue inner scopes option text = .ok (value, rest)) :
    value.Fits scopes levels option ∧
      (option.isExpression = true ∨ scopes ≠ [] → Passes 0 text 0 rest) := by
  cases hexpression : option.isExpression with
  | true =>
      obtain ⟨hfits, hpasses⟩ := expressionValue_spec hinner hexpression h
      exact ⟨hfits, fun _ => hpasses⟩
  | false =>
      refine ⟨.plain (isPlain_of_optionValue hexpression hrest h), ?_⟩
      rintro (htrue | hscopes)
      · cases htrue
      · exact passes_of_plain hexpression hscopes (hrest hscopes) h

/-! ### Lists of options -/

theorem separator?_spec (h : separator? text = .ok (some rest)) :
    Passes 1 text 1 rest ∧ text ≠ [] := by
  rcases separator?_cases h with h | h
  · exact ⟨passes_symbol? h rfl, ne_nil_of_symbol? h⟩
  · exact ⟨passes_symbol? h rfl, ne_nil_of_symbol? h⟩

theorem Assignment.passes {option : SystemOption} (h : Assignment text option rest) :
    Passes 1 text 1 rest := by
  obtain ⟨start, after, hnext, hequals⟩ := h
  exact (passes_token hnext (by simp) 1).trans (passes_symbol? hequals rfl)

theorem allFit_singleton {kind : OptionListKind} {option : SystemOption} {value : OptionValue}
    (hallows : kind.allows option = true) (hfits : value.Fits scopes levels option) :
    ParsedOption.AllFit kind scopes levels [.mk option value] := by
  refine .mk (List.cons_ne_nil _ _) (by simp) ?_ ?_
  · intro parsed hmem
    rw [List.mem_singleton.mp hmem]
    exact hallows
  · intro parsed hmem
    rw [List.mem_singleton.mp hmem]
    exact hfits

theorem allFit_cons {kind : OptionListKind} {option : SystemOption} {value : OptionValue}
    {others : List ParsedOption} (hallows : kind.allows option = true)
    (hfits : value.Fits scopes levels option) (hfresh : ∀ other ∈ others, other.name ≠ option)
    (hothers : ParsedOption.AllFit kind scopes levels others) :
    ParsedOption.AllFit kind scopes levels (.mk option value :: others) := by
  cases hothers with
  | mk _ hdistinct hallowed hfit =>
      refine .mk (List.cons_ne_nil _ _) ?_ ?_ ?_
      · rw [List.map_cons, List.nodup_cons]
        refine ⟨?_, hdistinct⟩
        intro hmem
        obtain ⟨other, hother, hname⟩ := List.mem_map.mp hmem
        exact hfresh other hother hname
      · intro parsed hmem
        rcases List.mem_cons.mp hmem with rfl | hmem
        · exact hallows
        · exact hallowed parsed hmem
      · intro parsed hmem
        rcases List.mem_cons.mp hmem with rfl | hmem
        · exact hfits
        · exact hfit parsed hmem

/-- The options of a list are allowed, differ from each other and from those seen before, and have
fitting values. -/
theorem optionList_spec (hinner : Sound levels inner) {kind : OptionListKind} {fuel : Nat}
    {seen : List SystemOption} {options : List ParsedOption} (hscopes : scopes ≠ [])
    (hrest : rest ≠ []) (h : optionList inner scopes kind fuel seen text = .ok (options, rest)) :
    Passes 1 text 1 rest ∧ ParsedOption.AllFit kind scopes levels options ∧
      ∀ option ∈ options, option.name ∉ seen := by
  refine optionList_induction (motive := fun seen text options => Passes 1 text 1 rest ∧
    ParsedOption.AllFit kind scopes levels options ∧ ∀ option ∈ options, option.name ∉ seen) ?_ ?_ h
  · intro seen text afterEquals option value hallows hseen hassignment hvalue
    obtain ⟨hfits, htaken⟩ := optionValue_spec hinner (fun _ => hrest) hvalue
    exact ⟨hassignment.passes.trans (htaken (Or.inr hscopes)).inner, allFit_singleton hallows hfits,
      List.forall_mem_singleton.mpr hseen⟩
  · rintro seen text afterEquals afterValue after option value others hallows hseen hassignment
      hvalue hafter ⟨hmore, hall, hfresh⟩
    obtain ⟨hseparator, hnonempty⟩ := separator?_spec hafter
    obtain ⟨hfits, htaken⟩ := optionValue_spec hinner (fun _ => hnonempty) hvalue
    refine ⟨((hassignment.passes.trans (htaken (Or.inr hscopes)).inner).trans hseparator).trans hmore,
      allFit_cons hallows hfits ?_ hall, List.forall_mem_cons.mpr ⟨hseen, ?_⟩⟩
    · intro other hmem heq
      exact hfresh other hmem (heq ▸ List.mem_cons_self)
    · exact fun other hmem hname => hfresh other hmem (List.mem_cons_of_mem _ hname)

/-! ### All levels -/

theorem level_spec (hinner : Sound levels inner) {goal : Goal} {value : goal.Value}
    (h : level inner goal scopes text = .ok (value, rest)) :
    goal.Sound scopes levels text value rest := by
  cases goal with
  | operand => exact operand_spec hinner h
  | expression => exact expression_spec hinner h
  | arguments => exact arguments_spec hinner h
  | options kind =>
      intro hscopes hrest
      obtain ⟨hpasses, hall, -⟩ := optionList_spec hinner hscopes hrest h
      exact ⟨hpasses, hall⟩

/-- Whatever the number of levels, what nests is read as the law of a level says. -/
theorem nested_sound (levels : Nat) : Sound levels (nested levels) := by
  induction levels with
  | zero =>
      intro goal scopes text rest value h
      cases h
  | succ levels ih =>
      intro goal scopes text rest value h
      exact ⟨levels, rfl, level_spec ih h⟩

end Grammar

/-- What a reader gives for a whole text, with blanks at most after it. -/
theorem eq_ok_of_readWhole {α : Type} {reader : Reader α} {text : Text} {value : α}
    (h : readWhole reader text = .ok value) :
    ∃ rest, reader text = .ok (value, rest) ∧ rest.all Unicode.isWhiteSpace = true := by
  obtain ⟨⟨found, rest⟩, hfound, h⟩ := bind_eq_ok.mp h
  obtain ⟨_, hend, h⟩ := bind_eq_ok.mp h
  cases h
  refine ⟨rest, hfound, ?_⟩
  obtain ⟨next, hnext, hend⟩ := bind_eq_ok.mp hend
  split at hend
  · exact Lexeme.all_blank_of_next? hnext
  · exact (eq_error_of_unexpected hend).elim

/-- An accepted expression fits its depth limit. -/
theorem Expression.fits_of_parse {text : Text} {maxDepth : Nat} {expression : Expression}
    (h : Expression.parse text maxDepth = .ok expression) : expression.Fits [] maxDepth := by
  obtain ⟨rest, hread, -⟩ := eq_ok_of_readWhole (eq_ok_of_mapError h)
  exact (Grammar.expression_spec (Grammar.nested_sound maxDepth) hread).2

/-- The accepted value of an option fits its depth limit. -/
theorem OptionValue.fits_of_parse {option : SystemOption} {text : Text} {maxDepth : Nat}
    {value : OptionValue} (h : OptionValue.parse option text maxDepth = .ok value) :
    value.Fits [] maxDepth option := by
  obtain ⟨rest, hread, -⟩ := eq_ok_of_readWhole (eq_ok_of_mapError h)
  exact (Grammar.optionValue_spec (Grammar.nested_sound maxDepth) (fun h => absurd rfl h) hread).1

end ODataRequest
