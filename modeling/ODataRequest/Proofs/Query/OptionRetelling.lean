import ODataRequest.Proofs.Query.Retelling

/-! Option values and lists of options in two texts that tell the same. Every reader of an option value
that is made of tokens reads the same from related texts, and so does a list of options after which the
text goes on, whatever stands in the values that are no expressions. From one level over another it follows
for the whole grammar. -/

namespace ODataRequest

open Text Reader

variable {hidden : List SystemOption} {kinds : List OptionListKind} {R : Text → Text → Prop}
  {text text' rest : Text}

/-- What is built from a value is built from the same value. -/
theorem Transfers.map_value {α β : Type} {reading reading' : Except Fault (α × Text)}
    (h : Transfers (Leaves R) reading reading') (build : α → β) :
    Transfers (Leaves R) (reading.map fun (value, rest) => (build value, rest))
      (reading'.map fun (value, rest) => (build value, rest)) := by
  rintro _ hresult
  obtain ⟨_, hread, rfl⟩ := map_eq_ok hresult
  obtain ⟨_, hread', ⟨hrest⟩⟩ := h _ hread
  rw [hread']
  exact ⟨_, rfl, .read hrest⟩

/-- The name of an option whose value is made of tokens, with its sign. -/
theorem Retells.assignment {option : SystemOption} {after : Text} (hR : Retells hidden kinds R)
    (h : R text text') (hexpression : option.isExpression = true)
    (hassignment : Grammar.Assignment text option after) :
    ∃ after', Grammar.Assignment text' option after' ∧ R after after' := by
  obtain ⟨start, afterName, hnext, hequals⟩ := hassignment
  obtain ⟨start', afterName', hnext', hname⟩ :=
    next?_token hR h hnext (hR.isOpen_option (Or.inl hexpression))
  obtain ⟨_, hequals', ⟨hafter⟩⟩ := symbol?_transfers hR hname (Or.inl (by decide)) _ hequals
  exact ⟨_, ⟨start', afterName', hnext', hequals'⟩, hafter⟩

/-! ### Member paths -/

namespace Reader

section Paths

variable (hR : Retells hidden kinds R)

include hR

theorem memberNames_transfers {fuel fuel' : Nat} (h : R text text') (hfuel : text.length ≤ fuel)
    (hfuel' : text'.length ≤ fuel') :
    Transfers (Leaves R) (memberNames fuel text) (memberNames fuel' text') := by
  induction fuel generalizing fuel' text text' with
  | zero =>
      refine .of_fails fun read hread => ?_
      rw [memberNames.eq_def] at hread
      obtain ⟨⟨member, start, rest⟩, hname, -⟩ := bind_eq_ok.mp hread
      exact absurd (Lexeme.length_lt_of_next? (next?_of_name hname)) (by omega)
  | succ fuel ih =>
      rw [memberNames.eq_def, memberNames.eq_def]
      refine (name_transfers hR h).bind ?_
      rintro ⟨member, start, rest⟩ ⟨member', start', rest'⟩ hname hname' ⟨hsame, hrest⟩
      obtain rfl : member = member' := hsame
      refine checkMember_transfers.bind fun _ _ _ _ hmember => ?_
      replace hrest := hrest (Token.isOpen_name hmember)
      refine (symbol?_transfers hR hrest (Or.inl (by decide))).bind
        fun slash slash' hslash hslash' hrelated => ?_
      cases hrelated with
      | none => exact .ok (.read hrest)
      | some hafter =>
          refine (hR.next hafter).bind fun next next' _ _ halike => ?_
          cases halike with
          | ended => exact .ok (.read hrest)
          | closed => exact .ok (.read hrest)
          | @token token _ _ _ _ _ =>
              cases token with
              | literal value => exact .ok (.read hrest)
              | symbol mark => exact .ok (.read hrest)
              | name word =>
                  have hshorter := Lexeme.length_lt_of_next? (next?_of_name hname)
                  have hshorter' := Lexeme.length_lt_of_next? (next?_of_name hname')
                  have hlt := length_lt_of_symbol? hslash
                  have hlt' := length_lt_of_symbol? hslash'
                  dsimp only at hshorter hshorter' hlt hlt' ⊢
                  split
                  · exact .ok (.read hrest)
                  cases fuel' with
                  | zero => omega
                  | succ fuel' =>
                      refine (ih hafter (by omega) (by omega)).read fun members rest rest' _ _ hrest => ?_
                      exact .ok (.read hrest)

theorem memberPath_transfers (h : R text text') :
    Transfers (Leaves R) (memberPath text) (memberPath text') := by
  refine (memberNames_transfers hR h (Nat.le_refl _) (Nat.le_refl _)).read
    fun members rest rest' _ _ hrest => ?_
  exact .ok (.read hrest)

theorem controlSegment?_transfers {segment : Text} (hsegment : (Token.name segment).IsOpen hidden)
    (h : R text text') :
    Transfers (Option.Rel R) (controlSegment? segment text) (controlSegment? segment text') := by
  refine (symbol?_transfers hR h (Or.inl (by decide))).bind fun slash slash' _ _ hrelated => ?_
  cases hrelated with
  | none => exact .ok .none
  | some hafter => exact word?_transfers hR hafter hsegment

end Paths

end Reader

namespace Grammar

/-! ### Items of option values -/

section Items

variable (hR : Retells hidden kinds R)

include hR

theorem sortDirection_transfers (h : R text text') :
    Transfers (Leaves R) (sortDirection text) (sortDirection text') := by
  refine (word?_transfers hR h (Token.isOpen_name (by decide))).bind
    fun descending descending' _ _ hrelated => ?_
  cases hrelated with
  | some hrest => exact .ok (.read hrest)
  | none =>
      refine (word?_transfers hR h (Token.isOpen_name (by decide))).bind
        fun ascending ascending' _ _ hrelated => ?_
      cases hrelated with
      | some hrest => exact .ok (.read hrest)
      | none => exact .ok (.read h)

theorem selectItem_steady : Steady R selectItem where
  transfers := by
    intro text text' h
    refine (symbol?_transfers hR h (Or.inl (by decide))).bind fun star star' _ _ hrelated => ?_
    cases hrelated with
    | some hrest => exact .ok (.read hrest)
    | none =>
        refine (memberPath_transfers hR h).read fun path rest rest' _ _ hrest => ?_
        refine (controlSegment?_transfers hR (hR.isOpen_option (Or.inr rfl)) hrest).bind
          fun count count' _ _ hrelated => ?_
        cases hrelated with
        | some hrest => exact .ok (.read hrest)
        | none => exact .ok (.read hrest)
  shrinks h := (selectItem_spec h).2.length_le

theorem expandTarget_transfers (h : R text text') :
    Transfers (Leaves R) (expandTarget text) (expandTarget text') := by
  refine (symbol?_transfers hR h (Or.inl (by decide))).bind fun star star' _ _ hrelated => ?_
  cases hrelated with
  | some hrest =>
      refine (controlSegment?_transfers hR Token.isOpen_refSegment hrest).bind
        fun ref ref' _ _ hrelated => ?_
      cases hrelated with
      | some hrest => exact .ok (.read hrest)
      | none => exact .ok (.read hrest)
  | none =>
      refine (memberPath_transfers hR h).read fun path rest rest' _ _ hrest => ?_
      refine (controlSegment?_transfers hR (hR.isOpen_option (Or.inr rfl)) hrest).bind
        fun count count' _ _ hrelated => ?_
      cases hrelated with
      | some hrest => exact .ok (.read hrest)
      | none =>
          refine (controlSegment?_transfers hR Token.isOpen_refSegment hrest).bind
            fun ref ref' _ _ hrelated => ?_
          cases hrelated with
          | some hrest => exact .ok (.read hrest)
          | none => exact .ok (.read hrest)

end Items

section Levels

variable (hR : Retells hidden kinds R) {inner : GoalReader} (hinner : Retold hidden kinds R inner)
  {scopes : Scopes} (hscopes : scopes.Free hidden) {levels : Nat} (hsound : Sound levels inner)

include hR hinner hscopes hsound

theorem orderByItem_steady : Steady R (orderByItem inner scopes) where
  transfers := by
    intro text text' h
    refine ((expression_steady hR hinner hscopes hsound).transfers h).read
      fun key rest rest' _ _ hrest => ?_
    refine (sortDirection_transfers hR hrest).read fun direction rest rest' _ _ hrest => ?_
    exact .ok (.read hrest)
  shrinks h := (orderByItem_spec hsound h).2.length_le

theorem expandItem_steady (hkinds : .expand ∈ kinds) : Steady R (expandItem inner scopes) where
  transfers := by
    intro text text' h
    refine (expandTarget_transfers hR h).read fun target rest rest' _ _ hrest => ?_
    refine (symbol?_transfers hR hrest (Or.inl (by decide))).bind fun opened opened' _ _ hrelated => ?_
    cases hrelated with
    | none => exact .ok (.read hrest)
    | some hafter =>
        exact closedOptions_transfers hR hinner hscopes hkinds (ExpandItem.mk target) hafter
  shrinks h := (expandItem_spec hsound h).2.length_le

/-- The value of an option that is made of tokens. -/
theorem expressionValue_transfers {kind : OptionListKind} {option : SystemOption} (hkind : kind ∈ kinds)
    (hallows : kind.allows option = true) (hexpression : option.isExpression = true) (h : R text text') :
    Transfers (Leaves R) (optionValue inner scopes option text) (optionValue inner scopes option text') := by
  have hexpand : option ≠ .filter → .expand ∈ kinds := by
    intro hfilter
    cases kind with
    | expand => exact hkind
    | count =>
        revert hallows hexpression hfilter
        cases option <;> nofun
  cases option with
  | filter => exact ((expression_steady hR hinner hscopes hsound).transfers h).map_value OptionValue.filter
  | orderBy =>
      exact (commaList_transfers hR (orderByItem_steady hR hinner hscopes hsound) h).map_value
        OptionValue.orderBy
  | select => exact (commaList_transfers hR (selectItem_steady hR) h).map_value OptionValue.select
  | expand =>
      exact (commaList_transfers hR (expandItem_steady hR hinner hscopes hsound (hexpand nofun)) h).map_value
        OptionValue.expand
  | _ => cases hexpression

end Levels

/-! ### Values that are no expressions -/

section PlainValues

variable {inner : GoalReader} {scopes : Scopes} {after after' : Text}

theorem parseTruth_of_trim {raw raw' : Text} (h : raw'.trim = raw.trim) : parseTruth raw' = parseTruth raw := by
  rw [parseTruth, parseTruth, h]

theorem parseNonNegative_of_trim {raw raw' : Text} (h : raw'.trim = raw.trim) :
    parseNonNegative raw' = parseNonNegative raw := by
  rw [parseNonNegative, parseNonNegative, h]

theorem parseLevels_of_trim {raw raw' : Text} (h : raw'.trim = raw.trim) :
    parseLevels raw' = parseLevels raw := by
  rw [parseLevels, parseLevels, parseNonNegative_of_trim h, h]

theorem plainLiteral_of_trim {α : Type} {parse : Text → Except InvalidLiteral α} {value : α}
    (hstack : scopes ≠ [])
    (hparse : parse (spanVerbatim 0 false after').1 = parse (spanVerbatim 0 false after).1)
    (h : plainLiteral (!scopes.isEmpty) parse after = .ok (value, rest)) :
    plainLiteral (!scopes.isEmpty) parse after' = .ok (value, (spanVerbatim 0 false after').2) := by
  obtain ⟨hvalue, -⟩ := plainLiteral_cases h
  rw [plainValue_nested hstack] at hvalue
  rw [plainLiteral, plainValue_nested hstack]
  dsimp only
  rw [hparse, hvalue]

theorem verbatim_of_trim {value : Text} (hstack : scopes ≠ [])
    (hsame : (spanVerbatim 0 false after').1.trim = (spanVerbatim 0 false after).1.trim)
    (h : verbatim (!scopes.isEmpty) after = .ok (value, rest)) :
    verbatim (!scopes.isEmpty) after' = .ok (value, (spanVerbatim 0 false after').2) := by
  obtain ⟨rfl, hnonempty, -⟩ := verbatim_cases h
  rw [plainValue_nested hstack] at hnonempty ⊢
  rw [verbatim, plainValue_nested hstack]
  dsimp only
  rw [hsame, if_neg (by simpa using hnonempty)]

/-- A value that is no expression depends only on its text without the white space around it. -/
theorem optionValue_of_trim {option : SystemOption} {value : OptionValue} (hstack : scopes ≠ [])
    (hplain : option.isExpression = false)
    (hsame : (spanVerbatim 0 false after').1.trim = (spanVerbatim 0 false after).1.trim)
    (h : optionValue inner scopes option after = .ok (value, rest)) :
    optionValue inner scopes option after' = .ok (value, (spanVerbatim 0 false after').2) := by
  have hread : ∀ {α : Type} {reading reading' : Except Fault (α × Text)} {build : α → OptionValue},
      (reading.map fun (read, rest) => (build read, rest)) = .ok (value, rest) →
      (∀ read rest, reading = .ok (read, rest) →
        reading' = .ok (read, (spanVerbatim 0 false after').2)) →
      (reading'.map fun (read, rest) => (build read, rest)) =
        .ok (value, (spanVerbatim 0 false after').2) := by
    intro α reading reading' build hmap hreading
    obtain ⟨⟨read, rest⟩, hread, heq⟩ := map_eq_ok hmap
    cases heq
    rw [hreading read _ hread]
    rfl
  cases option with
  | filter | orderBy | select | expand => cases hplain
  | count => exact hread h fun _ _ h => plainLiteral_of_trim hstack (parseTruth_of_trim hsame) h
  | top | skip =>
      exact hread h fun _ _ h => plainLiteral_of_trim hstack (parseNonNegative_of_trim hsame) h
  | levels => exact hread h fun _ _ h => plainLiteral_of_trim hstack (parseLevels_of_trim hsame) h
  | search | apply | format => exact hread h fun _ _ h => verbatim_of_trim hstack hsame h

end PlainValues

/-! ### Lists of options -/

theorem separator?_transfers (hR : Retells hidden kinds R) (h : R text text')
    (hgoes : Lexeme.next? text ≠ .ok none) :
    Transfers (Option.Rel R) (separator? text) (separator? text') := by
  refine (symbol?_transfers hR h (Or.inr hgoes)).bind fun found found' _ _ hrelated => ?_
  cases hrelated with
  | some hrest => exact .ok (.some hrest)
  | none => exact symbol?_transfers hR h (Or.inr hgoes)

theorem length_lt_of_separator? (h : separator? text = .ok (some rest)) : rest.length < text.length := by
  rcases separator?_cases h with h | h
  · exact length_lt_of_symbol? h
  · exact length_lt_of_symbol? h

/-- What a separator is found in goes on. -/
theorem goes_of_separator? (h : separator? text = .ok (some rest)) : Lexeme.next? text ≠ .ok none := by
  rcases separator?_cases h with h | h
  · obtain ⟨_, hnext⟩ := next?_of_symbol? h
    rw [hnext]
    exact nofun
  · obtain ⟨_, hnext⟩ := next?_of_symbol? h
    rw [hnext]
    exact nofun

/-- The next option of a list begins in a shorter text. -/
theorem length_lt_of_option {inner : GoalReader} {scopes : Scopes} {levels : Nat}
    (hsound : Sound levels inner) (hstack : scopes ≠ []) {option : SystemOption} {value : OptionValue}
    {after afterValue : Text} (hassignment : Assignment text option after)
    (hvalue : optionValue inner scopes option after = .ok (value, afterValue))
    (hseparator : separator? afterValue = .ok (some rest)) : rest.length < text.length := by
  have hlt := length_lt_of_separator? hseparator
  obtain ⟨-, hpasses⟩ := optionValue_spec hsound (fun _ => (separator?_spec hseparator).2) hvalue
  have hvalue := (hpasses (Or.inr hstack)).length_le
  have hassignment := hassignment.passes.length_le
  omega

section Lists

variable (hR : Retells hidden kinds R) {inner : GoalReader} (hinner : Retold hidden kinds R inner)
  {scopes : Scopes} (hscopes : scopes.Free hidden) {levels : Nat} (hsound : Sound levels inner)
  (hstack : scopes ≠ []) {kind : OptionListKind} (hkind : kind ∈ kinds)

include hR hinner hscopes hsound hstack hkind

/-- An option after which the text goes on. -/
theorem option_transfers {option : SystemOption} {value : OptionValue} {after : Text}
    (hallows : kind.allows option = true) (h : R text text') (hassignment : Assignment text option after)
    (hvalue : optionValue inner scopes option after = .ok (value, rest))
    (hrest : Lexeme.next? rest ≠ .ok none) : ∃ after' rest', Assignment text' option after' ∧
      optionValue inner scopes option after' = .ok (value, rest') ∧ R rest rest' := by
  cases hexpression : option.isExpression with
  | true =>
      obtain ⟨after', hassignment', hafter⟩ := hR.assignment h hexpression hassignment
      obtain ⟨_, hvalue', ⟨hrest⟩⟩ :=
        expressionValue_transfers hR hinner hscopes hsound hkind hallows hexpression hafter _ hvalue
      exact ⟨after', _, hassignment', hvalue', hrest⟩
  | false =>
      obtain rfl := rest_of_plain hexpression hstack hvalue
      have hgoes : (spanVerbatim 0 false after).2 ≠ [] := by
        intro hnil
        rw [hnil] at hrest
        exact hrest rfl
      obtain ⟨after', hassignment', hsame, hrelated⟩ :=
        hR.plain hkind hallows hexpression h hassignment hgoes
      exact ⟨after', _, hassignment', optionValue_of_trim hstack hexpression hsame hvalue, hrelated⟩

theorem optionList_transfers {fuel fuel' : Nat} {seen : List SystemOption}
    {options : List ParsedOption} (h : R text text') (hfuel : text.length ≤ fuel)
    (hfuel' : text'.length ≤ fuel')
    (hoptions : optionList inner scopes kind fuel seen text = .ok (options, rest))
    (hrest : Lexeme.next? rest ≠ .ok none) :
    ∃ rest', optionList inner scopes kind fuel' seen text' = .ok (options, rest') ∧ R rest rest' := by
  induction fuel generalizing fuel' seen text text' options with
  | zero =>
      obtain ⟨option, _, _, _, -, -, ⟨_, _, hnext, -⟩, -⟩ := optionList_cases hoptions
      have := Lexeme.length_lt_of_next? hnext
      omega
  | succ fuel ih =>
      obtain ⟨option, value, after, afterValue, hallows, hseen, hassignment, hvalue, -⟩ :=
        optionList_cases hoptions
      rw [optionList_of_assignment hallows hseen hassignment, hvalue, ok_bind] at hoptions
      obtain ⟨found, hfound, hoptions⟩ := bind_eq_ok.mp hoptions
      dsimp only at hfound
      have hgoes : Lexeme.next? afterValue ≠ .ok none := by
        cases found with
        | none =>
            cases hoptions
            exact hrest
        | some afterSeparator => exact goes_of_separator? hfound
      obtain ⟨after', afterValue', hassignment', hvalue', hrelated⟩ :=
        option_transfers hR hinner hscopes hsound hstack hkind hallows h hassignment hvalue hgoes
      obtain ⟨found', hfound', hseparator⟩ := separator?_transfers hR hrelated hgoes _ hfound
      rw [optionList_of_assignment hallows hseen hassignment', hvalue', ok_bind]
      dsimp only
      rw [hfound', ok_bind]
      cases hseparator with
      | none =>
          cases hoptions
          exact ⟨afterValue', rfl, hrelated⟩
      | @some afterSeparator afterSeparator' hafter =>
          have hlt := length_lt_of_option hsound hstack hassignment hvalue hfound
          have hlt' := length_lt_of_option hsound hstack hassignment' hvalue' hfound'
          obtain ⟨⟨others, afterAll⟩, hothers, heq⟩ := bind_eq_ok.mp hoptions
          cases heq
          cases fuel' with
          | zero => omega
          | succ fuel' =>
              obtain ⟨rest', hothers', hrelated⟩ :=
                ih hafter (by omega) (by omega : afterSeparator'.length ≤ fuel') hothers
              refine ⟨rest', ?_, hrelated⟩
              dsimp only
              rw [hothers', ok_bind]

end Lists

/-! ### All levels -/

/-- The reader of one level reads the same from related texts if the reader below it does. -/
theorem level_retold (hR : Retells hidden kinds R) {inner : GoalReader} {levels : Nat}
    (hsound : Sound levels inner) (hinner : Retold hidden kinds R inner) :
    Retold hidden kinds R (level inner) where
  operand hscopes h := operand_transfers hR hinner hscopes h
  expression hscopes h := (expression_steady hR hinner hscopes hsound).transfers h
  arguments hscopes h := arguments_transfers hR hinner hscopes hsound h
  options hkind hscopes hstack h hoptions hrest :=
    optionList_transfers hR hinner hscopes hsound hstack hkind h (Nat.le_refl _) (Nat.le_refl _) hoptions
      hrest

/-- Whatever the number of levels, what nests is read the same from related texts. -/
theorem nested_retold (hR : Retells hidden kinds R) (levels : Nat) :
    Retold hidden kinds R (nested levels) := by
  induction levels with
  | zero =>
      refine ⟨fun _ _ => .error _, fun _ _ => .error _, fun _ _ => .error _, ?_⟩
      intro _ _ _ _ _ _ _ _ _ _ hoptions
      cases hoptions
  | succ levels ih =>
      obtain ⟨hoperand, hexpression, harguments, hoptions⟩ := level_retold hR (nested_sound levels) ih
      exact ⟨hoperand, hexpression, harguments, hoptions⟩

/-- Whatever the scopes, an expression is read the same from related texts. -/
theorem expression_retold (hR : Retells hidden kinds R) {scopes : Scopes} (hscopes : scopes.Free hidden)
    {levels : Nat} {expression : Expression} (h : R text text')
    (hread : Grammar.expression (nested levels) scopes text = .ok (expression, rest)) :
    ∃ rest', Grammar.expression (nested levels) scopes text' = .ok (expression, rest') ∧ R rest rest' := by
  obtain ⟨_, hread', ⟨hrest⟩⟩ :=
    (expression_steady hR (nested_retold hR levels) hscopes (nested_sound levels)).transfers h _ hread
  exact ⟨_, hread', hrest⟩

end Grammar

end ODataRequest
