import ODataRequest.Proofs.Query.References
import ODataRequest.Proofs.Query.Soundness
import ODataRequest.Proofs.Query.TokenRuns
import ODataRequest.Query.Equality

/-! Where the range variables of an accepted option value come from. A path starts from a range
variable that is known where it stands, and outside the options of counted collections only from one
that is written there as a token. The reader of one level keeps the second law if the reader below it
does. -/

namespace ODataRequest

open Text Reader

/-- A path that does not start from the range variable. The options of a counted collection may leave
out the range variable, so that their paths say nothing of what is written. -/
def Reference.Spares (word : Text) : Reference → Prop
  | .path scopes route => scopes.region ≠ some .subquery → route.qualifier ≠ some word
  | .member _ => True

/-- From one unread text to a later one, a word that is not written stays unwritten, and none of the
paths read in between starts from it. -/
def Spares (word text rest : Text) (references : List Reference) : Prop :=
  Unwritten word text → Unwritten word rest ∧ ∀ reference ∈ references, reference.Spares word

namespace Spares

variable {word text middle rest : Text} {references others : List Reference}

theorem refl (word text : Text) : Spares word text text [] :=
  fun hunwritten => ⟨hunwritten, List.forall_mem_nil _⟩

theorem trans (hfirst : Spares word text middle references)
    (hsecond : Spares word middle rest others) : Spares word text rest (references ++ others) := by
  intro hunwritten
  obtain ⟨hmiddle, hreferences⟩ := hfirst hunwritten
  obtain ⟨hrest, hothers⟩ := hsecond hmiddle
  exact ⟨hrest, List.forall_mem_append.mpr ⟨hreferences, hothers⟩⟩

theorem before (hfirst : Spares word text middle []) (hsecond : Spares word middle rest references) :
    Spares word text rest references :=
  hfirst.trans hsecond

theorem after (hfirst : Spares word text middle references) (hsecond : Spares word middle rest []) :
    Spares word text rest references := by
  have h := hfirst.trans hsecond
  rwa [List.append_nil] at h

/-- A path spares a word as any other path from the same range variable does. -/
theorem path {scopes : Scopes} {route route' : PropertyAccess}
    (h : Spares word text rest [.path scopes route]) (hqualifier : route'.qualifier = route.qualifier) :
    Spares word text rest [.path scopes route'] := by
  intro hunwritten
  obtain ⟨hrest, hroute⟩ := h hunwritten
  refine ⟨hrest, List.forall_mem_singleton.mpr fun hregion => ?_⟩
  rw [hqualifier]
  exact List.forall_mem_singleton.mp hroute hregion

theorem members (h : Spares word text rest []) (routes : List PropertyAccess) :
    Spares word text rest (routes.map .member) := by
  intro hunwritten
  refine ⟨(h hunwritten).1, List.forall_mem_map.mpr fun route _ => ?_⟩
  exact trivial

end Spares

/-! ### Tokens and lists -/

section Readers

variable {word text rest start name : Text}

theorem spares_token {token : Token} (h : Lexeme.next? text = .ok (some ⟨token, start, rest⟩))
    (htoken : token ≠ .symbol .equals) : Spares word text rest [] :=
  fun hunwritten => ⟨(hunwritten.next h htoken).2, List.forall_mem_nil _⟩

theorem spares_symbol? {mark : Symbol} (h : symbol? mark text = .ok (some rest))
    (hmark : mark ≠ .equals) : Spares word text rest [] := by
  obtain ⟨start, hnext⟩ := next?_of_symbol? h
  exact spares_token hnext fun heq => hmark (Token.symbol.inj heq)

theorem spares_word? (h : word? name text = .ok (some rest)) : Spares word text rest [] := by
  obtain ⟨start, hnext⟩ := next?_of_word? h
  exact spares_token hnext (by simp)

theorem Reader.Segment.spares (h : Segment text name rest) : Spares word text rest [] := by
  obtain ⟨after, start, hslash, hnext⟩ := h
  exact (spares_symbol? hslash (by decide)).before (spares_token hnext (by simp))

theorem spares_memberPath {route : PropertyAccess} (h : memberPath text = .ok (route, rest)) :
    Spares word text rest [] := by
  obtain ⟨⟨members, after⟩, hmembers, h⟩ := bind_eq_ok.mp h
  cases h
  refine memberNames_induction (motive := fun text _ => Spares word text rest []) ?_ ?_ hmembers
  · intro text start member hnext _
    exact spares_token hnext (by simp)
  · intro text start member afterName after' others hnext _ hslash hmore
    exact ((spares_token hnext (by simp)).before (spares_symbol? hslash (by decide))).before hmore

theorem spares_commaList {α : Type} {item : Reader α} {references : α → List Reference}
    (hitem : ∀ {text rest : Text} {value : α}, item text = .ok (value, rest) →
      Spares word text rest (references value))
    {values : List α} (h : commaList item text = .ok (values, rest)) :
    Spares word text rest (values.flatMap references) := by
  obtain ⟨value, others, after, rfl, hvalue, hothers⟩ := commaList_cases h
  have hmore : Spares word after rest (others.flatMap references) := by
    refine moreItems_induction (motive := fun text values =>
      Spares word text rest (values.flatMap references)) (Spares.refl word rest) ?_ hothers
    intro text after afterItem value values hcomma hvalue hmore
    rw [List.flatMap_cons]
    exact ((spares_symbol? hcomma (by decide)).before (hitem hvalue)).trans hmore
  rw [List.flatMap_cons]
  exact (hitem hvalue).trans hmore

end Readers

/-- What the reading of a goal says of a word. A list of options always has a scope. -/
def Goal.Spares (word : Text) (scopes : Scopes) : (goal : Goal) → Text → goal.Value → Text → Prop
  | .operand, text, value, rest => ODataRequest.Spares word text rest (value.references scopes)
  | .expression, text, value, rest => ODataRequest.Spares word text rest (value.references scopes)
  | .arguments, text, values, rest =>
    ODataRequest.Spares word text rest (Expression.referencesAll scopes values)
  | .options _, text, values, rest =>
    scopes ≠ [] → ODataRequest.Spares word text rest (ParsedOption.referencesAll scopes values)

namespace Grammar

/-- A reader of what nests that spares a word. -/
def Sparing (word : Text) (inner : GoalReader) : Prop :=
  ∀ {goal : Goal} {scopes : Scopes} {text rest : Text} {value : goal.Value},
    inner goal scopes text = .ok (value, rest) → goal.Spares word scopes text value rest

variable {word origin text start rest : Text} {inner : GoalReader} {scopes : Scopes}

theorem leftAssociated_spares {operators : List BinaryOperator} {operand : Reader Expression}
    (hoperand : ∀ {text rest : Text} {value : Expression}, operand text = .ok (value, rest) →
      Spares word text rest (value.references scopes))
    {value : Expression} (h : leftAssociated operators operand text = .ok (value, rest)) :
    Spares word text rest (value.references scopes) := by
  refine leftAssociated_induction (motive := fun rest value =>
    Spares word text rest (value.references scopes)) ?_ hoperand h
  intro op left right after start afterOp afterRight hleft _ hnext hright
  rw [Expression.references]
  exact (hleft.after (spares_token hnext (by simp))).trans (hoperand hright)

/-! ### Paths -/

theorem references_endPath (scopes : Scopes) (qualifier : Option Text) (path : List Text) :
    (endPath scopes qualifier path).references scopes =
      [.path scopes (scopes.resolve qualifier path)] := by
  cases qualifier with
  | none => rfl
  | some binder =>
      cases path with
      | nil => rfl
      | cons member path => rfl

theorem counted_spares (hinner : Sparing word inner) {collection : PropertyAccess}
    {value : Expression} (hcollection : Spares word origin text [.path scopes collection])
    (h : counted inner scopes collection text = .ok (value, rest)) :
    Spares word origin rest (value.references scopes) := by
  rcases counted_cases h with ⟨rfl, rfl⟩ |
    ⟨options, afterOpen, afterOptions, hopen, hoptions, hclose, rfl⟩
  · exact hcollection
  · have hlist : Spares word afterOpen afterOptions _ := hinner hoptions (List.cons_ne_nil _ _)
    rw [Expression.references]
    exact (hcollection.after (spares_symbol? hopen (by decide))).trans
      (hlist.after (spares_symbol? hclose (by decide)))

theorem lambda_spares (hinner : Sparing word inner) {kind : LambdaKind}
    {collection : PropertyAccess} {value : Expression}
    (hcollection : Spares word origin text [.path scopes collection])
    (h : lambda inner scopes kind collection text = .ok (value, rest)) :
    Spares word origin rest (value.references scopes) := by
  rcases lambda_cases h with ⟨rfl, hclose⟩ | ⟨binder, start, afterName, afterColon, body, afterBody,
    hnext, -, hcolon, hbody, hclose, rfl⟩
  · exact hcollection.after (spares_symbol? hclose (by decide))
  · have hinside : Spares word afterColon afterBody _ := hinner hbody
    have hbegin : Spares word text afterColon [] :=
      (spares_token hnext (by simp)).before (spares_symbol? hcolon (by decide))
    rw [Expression.references, Expression.referencesBody]
    exact (hcollection.after hbegin).trans (hinside.after (spares_symbol? hclose (by decide)))

theorem endsPath_spares (hinner : Sparing word inner) {qualifier : Option Text} {path : List Text}
    {value : Expression}
    (hpath : Spares word origin text [.path scopes (scopes.resolve qualifier path)])
    (h : EndsPath inner scopes qualifier path text value rest) :
    Spares word origin rest (value.references scopes) := by
  cases h with
  | stop =>
      rw [references_endPath]
      exact hpath
  | count hsegment h => exact counted_spares hinner (hpath.after hsegment.spares) h
  | lambda hsegment hopen h =>
      exact lambda_spares hinner
        ((hpath.after hsegment.spares).after (spares_symbol? hopen (by decide))) h

theorem morePath_spares (hinner : Sparing word inner) {qualifier : Option Text} {fuel : Nat}
    {path : List Text} {value : Expression}
    (hpath : Spares word origin text [.path scopes (scopes.resolve qualifier path)])
    (h : morePath inner scopes qualifier fuel path text = .ok (value, rest)) :
    Spares word origin rest (value.references scopes) := by
  obtain ⟨path', text', hpath', hends⟩ :=
    morePath_induction (motive := fun path after =>
        Spares word origin after [.path scopes (scopes.resolve qualifier path)])
      (fun hpath hsegment _ => (hpath.after hsegment.spares).path rfl) hpath h
  exact endsPath_spares hinner hpath' hends

/-- The name that a path begins with is a token, and a path without a range variable starts from one
only among the options of a counted collection. -/
theorem pathExpression_spares (hinner : Sparing word inner) {head afterName : Text}
    {value : Expression} (hnext : Lexeme.next? text = .ok (some ⟨.name head, start, afterName⟩))
    (h : pathExpression inner scopes head start afterName = .ok (value, rest)) :
    Spares word text rest (value.references scopes) := by
  rcases pathExpression_cases h with ⟨-, h⟩ | ⟨-, -, h⟩
  · refine morePath_spares hinner ?_ h
    intro hunwritten
    obtain ⟨hword, hmore⟩ := hunwritten.next hnext (by simp)
    refine ⟨hmore, List.forall_mem_singleton.mpr fun _ heq => ?_⟩
    exact hword (congrArg Token.name (Option.some.inj heq))
  · refine morePath_spares hinner ?_ h
    intro hunwritten
    refine ⟨(hunwritten.next hnext (by simp)).2, List.forall_mem_singleton.mpr fun hregion heq => ?_⟩
    rw [Scopes.resolve, Scopes.implicitQualifier_eq_ite, if_neg hregion] at heq
    cases heq

/-! ### Operands -/

theorem call_spares (hinner : Sparing word inner) {function : Text} {value : Expression}
    (h : call inner scopes function start text = .ok (value, rest)) :
    Spares word text rest (value.references scopes) := by
  obtain ⟨arguments, afterArguments, -, harguments, hclose, rfl⟩ := call_cases h
  have hall : Spares word text afterArguments _ := hinner harguments
  rw [Expression.references]
  exact hall.after (spares_symbol? hclose (by decide))

theorem primary_spares (hinner : Sparing word inner) {value : Expression}
    (h : Primary inner scopes text value rest) :
    Spares word text rest (value.references scopes) := by
  cases h with
  | literal hnext =>
      rw [Expression.references]
      exact spares_token hnext (by simp)
  | group hopen h hclose =>
      have hinside : Spares word _ _ _ := hinner h
      exact ((spares_symbol? hopen (by decide)).before hinside).after
        (spares_symbol? hclose (by decide))
  | call hnext _ hopen h =>
      exact ((spares_token hnext (by simp)).before (spares_symbol? hopen (by decide))).before
        (call_spares hinner h)
  | path hnext _ h => exact pathExpression_spares hinner hnext h

theorem operand_spares (hinner : Sparing word inner) {value : Expression}
    (h : operand inner scopes text = .ok (value, rest)) :
    Spares word text rest (value.references scopes) := by
  rcases operand_cases h with ⟨inside, after, hnot, hinside, rfl⟩ |
    ⟨inside, after, hminus, hinside, rfl⟩ | ⟨-, hprimary⟩
  · have hoperand : Spares word after rest _ := hinner hinside
    exact (spares_word? hnot).before hoperand
  · have hoperand : Spares word after rest _ := hinner hinside
    exact (spares_symbol? hminus (by decide)).before hoperand
  · exact primary_spares hinner hprimary

theorem expression_spares (hinner : Sparing word inner) {value : Expression}
    (h : expression inner scopes text = .ok (value, rest)) :
    Spares word text rest (value.references scopes) :=
  leftAssociated_spares (leftAssociated_spares (leftAssociated_spares (leftAssociated_spares
    (leftAssociated_spares (operand_spares hinner))))) h

theorem arguments_spares (hinner : Sparing word inner) {values : List Expression}
    (h : arguments inner scopes text = .ok (values, rest)) :
    Spares word text rest (Expression.referencesAll scopes values) := by
  rcases arguments_cases h with ⟨rfl, rfl⟩ | h
  · exact Spares.refl word rest
  · rw [Expression.referencesAll_eq_flatMap]
    exact spares_commaList (expression_spares hinner) h

/-! ### Values of options -/

theorem orderByItem_spares (hinner : Sparing word inner) {item : OrderByItem}
    (h : orderByItem inner scopes text = .ok (item, rest)) :
    Spares word text rest (item.references scopes) := by
  obtain ⟨key, direction, after, hkey, hdirection, rfl⟩ := orderByItem_cases h
  have hafter : Spares word after rest [] := by
    rcases sortDirection_cases hdirection with ⟨name, hname⟩ | rfl
    · exact spares_word? hname
    · exact Spares.refl word rest
  rw [OrderByItem.references]
  exact (expression_spares hinner hkey).after hafter

theorem selectItem_spares {item : SelectItem} (h : selectItem text = .ok (item, rest)) :
    Spares word text rest item.references := by
  rcases selectItem_cases h with ⟨rfl, hstar⟩ | ⟨route, after, hpath, ⟨rfl, hsegment⟩ | ⟨rfl, rfl⟩⟩
  · exact spares_symbol? hstar (by decide)
  · exact ((spares_memberPath hpath).before hsegment.spares).members _
  · exact (spares_memberPath hpath).members _

theorem expandTarget_spares {target : ExpandTarget} (h : expandTarget text = .ok (target, rest)) :
    Spares word text rest target.references := by
  obtain ⟨after, hrest, htarget⟩ := expandTarget_cases h
  have hafter : Spares word after rest [] := by
    rcases hrest with hrest | ⟨name, hsegment⟩
    · rw [hrest]
      exact Spares.refl word after
    · exact hsegment.spares
  rcases htarget with ⟨hstar, -⟩ | ⟨route, hpath, -⟩
  · exact ((spares_symbol? hstar (by decide)).before hafter).members _
  · exact ((spares_memberPath hpath).before hafter).members _

theorem expandItem_spares (hinner : Sparing word inner) {item : ExpandItem}
    (h : expandItem inner scopes text = .ok (item, rest)) :
    Spares word text rest (item.references scopes) := by
  obtain ⟨target, after, htarget, ⟨rfl, rfl⟩ |
    ⟨options, afterOpen, afterOptions, hopen, hoptions, hclose, rfl⟩⟩ := expandItem_cases h
  · rw [ExpandItem.references]
    exact (expandTarget_spares htarget).trans (Spares.refl word rest)
  · have hlist : Spares word afterOpen afterOptions _ := hinner hoptions (List.cons_ne_nil _ _)
    rw [ExpandItem.references]
    exact ((expandTarget_spares htarget).after (spares_symbol? hopen (by decide))).trans
      (hlist.after (spares_symbol? hclose (by decide)))

theorem optionValue_spares (hinner : Sparing word inner) {option : SystemOption}
    {value : OptionValue} (hexpression : option.isExpression = true)
    (h : optionValue inner scopes option text = .ok (value, rest)) :
    Spares word text rest (value.references scopes) := by
  cases option with
  | filter =>
      obtain ⟨⟨condition, after⟩, hcondition, heq⟩ := map_eq_ok h
      cases heq
      exact expression_spares hinner hcondition
  | orderBy =>
      obtain ⟨⟨items, after⟩, hitems, heq⟩ := map_eq_ok h
      cases heq
      rw [OptionValue.references, OrderByItem.referencesAll_eq_flatMap]
      exact spares_commaList (orderByItem_spares hinner) hitems
  | select =>
      obtain ⟨⟨items, after⟩, hitems, heq⟩ := map_eq_ok h
      cases heq
      rw [OptionValue.references]
      exact spares_commaList selectItem_spares hitems
  | expand =>
      obtain ⟨⟨items, after⟩, hitems, heq⟩ := map_eq_ok h
      cases heq
      rw [OptionValue.references, ExpandItem.referencesAll_eq_flatMap]
      exact spares_commaList (expandItem_spares hinner) hitems
  | count | top | skip | levels | search | apply | format => cases hexpression

/-- The value of an option that is kept as it is refers to no path. -/
theorem references_of_plain {option : SystemOption} {value : OptionValue}
    (hplain : option.isExpression = false)
    (h : optionValue inner scopes option text = .ok (value, rest)) :
    value.references scopes = [] := by
  cases option with
  | filter | orderBy | select | expand => cases hplain
  | count | top | skip | levels | search | apply | format =>
      obtain ⟨⟨found, after⟩, -, heq⟩ := map_eq_ok h
      cases heq
      rfl

/-! ### Lists of options -/

/-- In a list, the value of an option spares a word, whether it is read as an expression or kept as
it is. -/
theorem assignment_spares (hinner : Sparing word inner) {option : SystemOption}
    {value : OptionValue} {afterEquals : Text} (hscopes : scopes ≠ [])
    (hassignment : Assignment text option afterEquals)
    (h : optionValue inner scopes option afterEquals = .ok (value, rest)) :
    Spares word text rest (value.references scopes) := by
  intro hunwritten
  have hafter := hunwritten.assignment hassignment
  cases hoption : option.isExpression with
  | true =>
      rw [hoption, if_pos rfl] at hafter
      exact optionValue_spares hinner hoption h hafter
  | false =>
      rw [hoption, if_neg Bool.false_ne_true, ← rest_of_plain hoption hscopes h] at hafter
      rw [references_of_plain hoption h]
      exact ⟨hafter, List.forall_mem_nil _⟩

theorem separator?_spares (h : separator? text = .ok (some rest)) : Spares word text rest [] := by
  rcases separator?_cases h with h | h
  · exact spares_symbol? h (by decide)
  · exact spares_symbol? h (by decide)

theorem optionList_spares (hinner : Sparing word inner) {kind : OptionListKind} {fuel : Nat}
    {seen : List SystemOption} {options : List ParsedOption} (hscopes : scopes ≠ [])
    (h : optionList inner scopes kind fuel seen text = .ok (options, rest)) :
    Spares word text rest (ParsedOption.referencesAll scopes options) := by
  refine optionList_induction (motive := fun _ text options =>
    Spares word text rest (ParsedOption.referencesAll scopes options)) ?_ ?_ h
  · intro seen text afterEquals option value _ _ hassignment hvalue
    rw [ParsedOption.referencesAll, ParsedOption.references]
    exact (assignment_spares hinner hscopes hassignment hvalue).trans (Spares.refl word rest)
  · intro seen text afterEquals afterValue after option value others _ _ hassignment hvalue hafter
      hmore
    rw [ParsedOption.referencesAll, ParsedOption.references]
    exact ((assignment_spares hinner hscopes hassignment hvalue).after
      (separator?_spares hafter)).trans hmore

/-! ### All levels -/

theorem level_spares (hinner : Sparing word inner) {goal : Goal} {value : goal.Value}
    (h : level inner goal scopes text = .ok (value, rest)) :
    goal.Spares word scopes text value rest := by
  cases goal with
  | operand => exact operand_spares hinner h
  | expression => exact expression_spares hinner h
  | arguments => exact arguments_spares hinner h
  | options kind => exact fun hscopes => optionList_spares hinner hscopes h

/-- Whatever the number of levels, what nests spares every word. -/
theorem nested_sparing (word : Text) (levels : Nat) : Sparing word (nested levels) := by
  induction levels with
  | zero =>
      intro goal scopes text rest value h
      cases h
  | succ levels ih =>
      intro goal scopes text rest value h
      exact level_spares ih h

end Grammar

/-- **Scopes.** In an accepted option value, a path starts from the implicit variable or from the
range variable of a lambda around it, if it starts from one; among the options of a counted
collection it does start from one; and a selected or expanded path starts from none. Outside the
options of counted collections no path starts from the implicit variable unless the text has it as a
token. -/
theorem OptionValue.resolved_of_parse {option : SystemOption} {raw : Text} {maxDepth : Nat}
    {value : OptionValue} (h : OptionValue.parse option raw maxDepth = .ok value) :
    ∀ reference ∈ value.references [], reference.Resolved ∧
      (Token.name implicitVariable ∉ Lexeme.tokens raw → reference.Spares implicitVariable) := by
  intro reference hmem
  refine ⟨(OptionValue.fits_of_parse h).resolves reference hmem, fun hunwritten => ?_⟩
  obtain ⟨rest, hread, -⟩ := eq_ok_of_readWhole (eq_ok_of_mapError h)
  cases hoption : option.isExpression with
  | true =>
      have hspares := Grammar.optionValue_spares (Grammar.nested_sparing implicitVariable maxDepth)
        hoption hread
      exact (hspares ⟨false, hunwritten⟩).2 reference hmem
  | false =>
      rw [Grammar.references_of_plain hoption hread] at hmem
      cases hmem

/-- In a count within a lambda, a bare path starts from the implicit variable although the text has
it only in a search that is kept as it is. -/
theorem OptionValue.resolved_of_parse_count : ∃ value,
    OptionValue.parse .filter
        "Items/any(i:i/Parts/$count($search=$it;$filter=Weight gt i/Limit) gt 2)".toList 4 =
      .ok value ∧
    .path [.subquery, .lambda "i".toList] ⟨some implicitVariable, ["Weight".toList]⟩ ∈
      value.references [] ∧
    ∀ reference ∈ value.references [], reference.Resolved ∧ reference.Spares implicitVariable := by
  have hparse : OptionValue.parse .filter
      "Items/any(i:i/Parts/$count($search=$it;$filter=Weight gt i/Limit) gt 2)".toList 4 =
        .ok (.filter (.lambda .any ⟨none, ["Items".toList]⟩ (some "i".toList) (some (.binary .gt
          (.subquery ⟨some "i".toList, ["Parts".toList]⟩
            [.mk .search (.search "$it".toList), .mk .filter (.filter (.binary .gt
              (.access ⟨some implicitVariable, ["Weight".toList]⟩)
              (.access ⟨some "i".toList, ["Limit".toList]⟩)))])
          (.literal (.integer 2)))))) := by
    decide +kernel
  have hunwritten : Token.name implicitVariable ∉ Lexeme.tokens
      "Items/any(i:i/Parts/$count($search=$it;$filter=Weight gt i/Limit) gt 2)".toList := by
    decide +kernel
  refine ⟨_, hparse, by simp [OptionValue.references, Expression.references,
    Expression.referencesBody, ParsedOption.referencesAll, ParsedOption.references], ?_⟩
  intro reference hmem
  obtain ⟨hresolved, hspares⟩ := OptionValue.resolved_of_parse hparse reference hmem
  exact ⟨hresolved, hspares hunwritten⟩

end ODataRequest
