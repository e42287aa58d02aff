import ODataRequest.Proofs.Query.WellFormed

/-! What the small readers take from a text. `Passes` says how a scanner that keeps a depth gets from
one unread text to a later one; it composes, so that a reader that runs others one after the other
passes what they pass. -/

namespace ODataRequest

open Text Unicode Nesting

/-- Except for its errors, a computation that binds another one runs both. -/
theorem bind_eq_ok {ε α β : Type} {first : Except ε α} {next : α → Except ε β} {value : β} :
    first >>= next = .ok value ↔ ∃ middle, first = .ok middle ∧ next middle = .ok value := by
  cases first with
  | error e => simp [bind, Except.bind]
  | ok middle => simp [bind, Except.bind]

theorem bind_eq_error {ε α β : Type} {first : Except ε α} {next : α → Except ε β} {e : ε}
    (h : first >>= next = .error e) :
    first = .error e ∨ ∃ middle, first = .ok middle ∧ next middle = .error e := by
  cases first with
  | error e' =>
      cases h
      exact Or.inl rfl
  | ok middle => exact Or.inr ⟨middle, rfl, h⟩

theorem ok_bind {ε α β : Type} (value : α) (next : α → Except ε β) :
    (Except.ok value >>= next) = next value :=
  rfl

theorem eq_ok_of_mapError {ε ε' α : Type} {result : Except ε α} {f : ε → ε'} {value : α}
    (h : result.mapError f = .ok value) : result = .ok value := by
  cases result with
  | error e => cases h
  | ok found =>
      cases h
      rfl

/-- Outside quotes, a scanner gets from one depth to another on what stands between two unread
texts. -/
def Passes (depth : Nat) (text : Text) (depth' : Nat) (rest : Text) : Prop :=
  ∃ taken, text = taken ++ rest ∧ after? separates depth false taken = some (depth', false)

namespace Passes

variable {depth depth' depth'' : Nat} {text middle rest : Text}

theorem refl (depth : Nat) (text : Text) : Passes depth text depth text :=
  ⟨[], rfl, rfl⟩

theorem trans (hfirst : Passes depth text depth' middle) (hsecond : Passes depth' middle depth'' rest) :
    Passes depth text depth'' rest := by
  obtain ⟨first, rfl, hfirst⟩ := hfirst
  obtain ⟨second, rfl, hsecond⟩ := hsecond
  exact ⟨first ++ second, (List.append_assoc first second rest).symm,
    (after?_append_of_eq hfirst).trans hsecond⟩

/-- What is passed at some depth is passed at any greater one. -/
theorem add (h : Passes depth text depth' rest) (extra : Nat) :
    Passes (depth + extra) text (depth' + extra) rest := by
  obtain ⟨taken, htext, htaken⟩ := h
  exact ⟨taken, htext, after?_shift htaken extra⟩

theorem inner (h : Passes 0 text 0 rest) : Passes 1 text 1 rest :=
  h.add 1

theorem of_closed {taken : Text} (h : Closed separates taken) (depth : Nat) (rest : Text) :
    Passes depth (taken ++ rest) depth rest := by
  refine ⟨taken, rfl, ?_⟩
  have := after?_shift h depth
  rwa [Nat.zero_add] at this

theorem length_le (h : Passes depth text depth' rest) : rest.length ≤ text.length := by
  obtain ⟨taken, rfl, -⟩ := h
  rw [List.length_append]
  exact Nat.le_add_left _ _

end Passes

namespace Reader

variable {text start rest after word : Text} {depth depth' : Nat}

/-! ### Single tokens -/

theorem passes_token {token : Token} (h : Lexeme.next? text = .ok (some ⟨token, start, rest⟩))
    (hsymbol : ∀ symbol, token ≠ .symbol symbol) (depth : Nat) : Passes depth text depth rest := by
  obtain ⟨blanks, word, rfl, hblanks, hspells⟩ := Lexeme.eq_of_next? h
  have hword : Closed separates word := by
    rcases hspells.closed with hclosed | ⟨symbol, hsym⟩
    · exact hclosed
    · exact absurd hsym (hsymbol symbol)
  exact (Passes.of_closed (Lexeme.blank_closed hblanks) depth _).trans
    (Passes.of_closed hword depth rest)

theorem isName_of_next? (h : Lexeme.next? text = .ok (some ⟨.name word, start, rest⟩)) :
    Lexeme.isName word = true := by
  obtain ⟨_, _, -, -, hspells⟩ := Lexeme.eq_of_next? h
  cases hspells with
  | name hname => exact hname

theorem wellFormed_of_next? {value : Literal}
    (h : Lexeme.next? text = .ok (some ⟨.literal value, start, rest⟩)) : value.WellFormed := by
  obtain ⟨_, _, -, -, hspells⟩ := Lexeme.eq_of_next? h
  cases hspells with
  | literal hwell _ _ => exact hwell

theorem next?_of_symbol? {symbol : Symbol} (h : symbol? symbol text = .ok (some rest)) :
    ∃ start, Lexeme.next? text = .ok (some ⟨.symbol symbol, start, rest⟩) := by
  obtain ⟨next, hnext, h⟩ := bind_eq_ok.mp h
  split at h
  · rename_i found start after
    by_cases hfound : found = symbol
    · rw [if_pos hfound] at h
      cases h
      exact ⟨start, hfound ▸ hnext⟩
    · rw [if_neg hfound] at h
      cases h
  · cases h

theorem next?_of_word? (h : word? word text = .ok (some rest)) :
    ∃ start, Lexeme.next? text = .ok (some ⟨.name word, start, rest⟩) := by
  obtain ⟨next, hnext, h⟩ := bind_eq_ok.mp h
  split at h
  · rename_i found start after
    by_cases hfound : found = word
    · rw [if_pos hfound] at h
      cases h
      exact ⟨start, hfound ▸ hnext⟩
    · rw [if_neg hfound] at h
      cases h
  · cases h

/-- A name that is not the given one. -/
theorem ne_of_word? {name : Text} (h : word? word text = .ok none)
    (hnext : Lexeme.next? text = .ok (some ⟨.name name, start, rest⟩)) : name ≠ word := by
  rintro rfl
  rw [word?, hnext] at h
  simp [bind, Except.bind] at h

theorem eq_error_of_unexpected {α : Type} {expected : Expectation} {value : α}
    (h : unexpected expected text = .ok value) : False := by
  obtain ⟨next, -, h⟩ := bind_eq_ok.mp h
  split at h <;> cases h

theorem symbol?_of_symbol {mark : Symbol} {expected : Expectation}
    (h : symbol mark expected text = .ok rest) : symbol? mark text = .ok (some rest) := by
  obtain ⟨found, hfound, h⟩ := bind_eq_ok.mp h
  split at h
  · cases h
    exact hfound
  · exact (eq_error_of_unexpected h).elim

theorem next?_of_name {expected : Expectation} (h : name expected text = .ok (word, start, rest)) :
    Lexeme.next? text = .ok (some ⟨.name word, start, rest⟩) := by
  obtain ⟨found, hfound, h⟩ := bind_eq_ok.mp h
  split at h
  · cases h
    exact hfound
  · exact (eq_error_of_unexpected h).elim

/-- A mark that a scanner goes over takes it to the next depth. -/
theorem passes_symbol? {symbol : Symbol} (h : symbol? symbol text = .ok (some rest))
    (hstep : step separates depth false symbol.char = some (depth', false)) :
    Passes depth text depth' rest := by
  obtain ⟨start, hnext⟩ := next?_of_symbol? h
  obtain ⟨blanks, word, rfl, hblanks, hspells⟩ := Lexeme.eq_of_next? hnext
  cases hspells with
  | symbol =>
      refine (Passes.of_closed (Lexeme.blank_closed hblanks) depth _).trans ⟨_, rfl, ?_⟩
      rw [Nesting.after?, hstep]
      rfl

theorem passes_open (h : symbol? .openParen text = .ok (some rest)) : Passes 0 text 1 rest :=
  passes_symbol? h rfl

theorem passes_close (h : symbol? .closeParen text = .ok (some rest)) : Passes 1 text 0 rest :=
  passes_symbol? h rfl

theorem passes_word? (h : word? word text = .ok (some rest)) (depth : Nat) :
    Passes depth text depth rest := by
  obtain ⟨start, hnext⟩ := next?_of_word? h
  exact passes_token hnext (by simp) depth

/-- A slash and a name come next. -/
def Segment (text word rest : Text) : Prop :=
  ∃ after start, symbol? .slash text = .ok (some after) ∧
    Lexeme.next? after = .ok (some ⟨.name word, start, rest⟩)

theorem Segment.passes (h : Segment text word rest) : Passes 0 text 0 rest := by
  obtain ⟨after, start, hslash, hnext⟩ := h
  exact (passes_symbol? hslash rfl).trans (passes_token hnext (by simp) 0)

theorem segment_of_controlSegment? (h : controlSegment? word text = .ok (some rest)) :
    Segment text word rest := by
  obtain ⟨found, hfound, h⟩ := bind_eq_ok.mp h
  split at h
  · obtain ⟨start, hnext⟩ := next?_of_word? h
    exact ⟨_, start, hfound, hnext⟩
  · cases h

/-- Something is left where a mark comes next. -/
theorem ne_nil_of_symbol? {symbol : Symbol} (h : symbol? symbol text = .ok (some rest)) :
    text ≠ [] := by
  rintro rfl
  cases h

theorem isMember_of_checkMember (h : checkMember word start = .ok ())
    (hname : Lexeme.isName word = true) : isMember word = true := by
  rw [checkMember] at h
  by_cases halias : word.head? = some '@'
  · rw [if_pos halias] at h
    cases h
  by_cases hprotocol : word.head? = some '$'
  · rw [if_neg halias, if_pos hprotocol] at h
    cases h
  simp [isMember, hname, halias, hprotocol]

/-! ### Lists and member paths -/

section Lists

variable {α : Type} {item : Reader α} {good : α → Prop}

/-- A list goes on with a comma and an item as long as there is one. -/
theorem moreItems_induction {motive : Text → List α → Prop} (hnil : motive rest [])
    (hcons : ∀ {text after afterItem : Text} {value : α} {values : List α},
      symbol? .comma text = .ok (some after) → item after = .ok (value, afterItem) →
      motive afterItem values → motive text (value :: values))
    {fuel : Nat} {values : List α} (h : moreItems item fuel text = .ok (values, rest)) :
    motive text values := by
  induction fuel generalizing text values with
  | zero =>
      cases h
      exact hnil
  | succ fuel ih =>
      obtain ⟨found, hfound, h⟩ := bind_eq_ok.mp h
      split at h
      · cases h
        exact hnil
      · obtain ⟨⟨value, afterItem⟩, hvalue, h⟩ := bind_eq_ok.mp h
        obtain ⟨⟨others, afterAll⟩, hothers, h⟩ := bind_eq_ok.mp h
        cases h
        exact hcons hfound hvalue (ih hothers)

theorem commaList_cases {values : List α} (h : commaList item text = .ok (values, rest)) :
    ∃ value others after, values = value :: others ∧ item text = .ok (value, after) ∧
      moreItems item after.length after = .ok (others, rest) := by
  obtain ⟨⟨value, afterItem⟩, hvalue, h⟩ := bind_eq_ok.mp h
  obtain ⟨⟨others, afterAll⟩, hothers, h⟩ := bind_eq_ok.mp h
  cases h
  exact ⟨value, others, afterItem, rfl, hvalue, hothers⟩

/-- What holds of every item holds of the items of a list. -/
theorem commaList_spec
    (hitem : ∀ {text rest : Text} {value : α}, item text = .ok (value, rest) →
      good value ∧ Passes 0 text 0 rest)
    {values : List α} (h : commaList item text = .ok (values, rest)) :
    values ≠ [] ∧ (∀ value ∈ values, good value) ∧ Passes 0 text 0 rest := by
  obtain ⟨value, others, after, rfl, hvalue, hothers⟩ := commaList_cases h
  obtain ⟨hgood, hpasses⟩ := hitem hvalue
  have hmore : (∀ value ∈ others, good value) ∧ Passes 0 after 0 rest := by
    refine moreItems_induction (motive := fun text values =>
      (∀ value ∈ values, good value) ∧ Passes 0 text 0 rest) ?_ ?_ hothers
    · exact ⟨List.forall_mem_nil _, Passes.refl 0 _⟩
    · rintro text afterComma afterItem value values hcomma hvalue ⟨hall, hmore⟩
      obtain ⟨hgood, hpasses⟩ := hitem hvalue
      exact ⟨List.forall_mem_cons.mpr ⟨hgood, hall⟩,
        ((passes_symbol? hcomma rfl).trans hpasses).trans hmore⟩
  exact ⟨List.cons_ne_nil _ _, List.forall_mem_cons.mpr ⟨hgood, hmore.1⟩, hpasses.trans hmore.2⟩

end Lists

/-- A member path ends after its first member or goes on after a slash. -/
theorem memberNames_cases {fuel : Nat} {members : List Text}
    (h : memberNames fuel text = .ok (members, rest)) :
    ∃ member start afterName,
      Lexeme.next? text = .ok (some ⟨.name member, start, afterName⟩) ∧ isMember member = true ∧
      (members = [member] ∧ rest = afterName ∨
        ∃ fuel' others after, fuel = fuel' + 1 ∧ members = member :: others ∧
          symbol? .slash afterName = .ok (some after) ∧
          memberNames fuel' after = .ok (others, rest)) := by
  rw [memberNames.eq_def] at h
  obtain ⟨⟨member, start, afterName⟩, hname, h⟩ := bind_eq_ok.mp h
  obtain ⟨_, hcheck, h⟩ := bind_eq_ok.mp h
  have hnext := next?_of_name hname
  refine ⟨member, start, afterName, hnext, isMember_of_checkMember hcheck (isName_of_next? hnext), ?_⟩
  obtain ⟨slash, hslash, h⟩ := bind_eq_ok.mp h
  split at h
  · cases h
    exact Or.inl ⟨rfl, rfl⟩
  obtain ⟨next, -, h⟩ := bind_eq_ok.mp h
  split at h
  · split at h
    · cases h
      exact Or.inl ⟨rfl, rfl⟩
    · split at h
      · cases h
        exact Or.inl ⟨rfl, rfl⟩
      · obtain ⟨⟨others, afterAll⟩, hothers, h⟩ := bind_eq_ok.mp h
        cases h
        exact Or.inr ⟨_, others, _, rfl, rfl, hslash, hothers⟩
  · cases h
    exact Or.inl ⟨rfl, rfl⟩

/-- A member path is a member, after which a slash and a member path may follow. -/
theorem memberNames_induction {motive : Text → List Text → Prop}
    (hlast : ∀ {text start member : Text},
      Lexeme.next? text = .ok (some ⟨.name member, start, rest⟩) → isMember member = true →
      motive text [member])
    (hmore : ∀ {text start member afterName after : Text} {others : List Text},
      Lexeme.next? text = .ok (some ⟨.name member, start, afterName⟩) → isMember member = true →
      symbol? .slash afterName = .ok (some after) → motive after others →
      motive text (member :: others))
    {fuel : Nat} {members : List Text} (h : memberNames fuel text = .ok (members, rest)) :
    motive text members := by
  induction fuel generalizing text members with
  | zero =>
      obtain ⟨member, start, afterName, hnext, hmember,
        ⟨rfl, rfl⟩ | ⟨_, _, _, hfuel, -⟩⟩ := memberNames_cases h
      · exact hlast hnext hmember
      · cases hfuel
  | succ fuel ih =>
      obtain ⟨member, start, afterName, hnext, hmember,
        ⟨rfl, rfl⟩ | ⟨_, others, after, hfuel, rfl, hslash, hothers⟩⟩ := memberNames_cases h
      · exact hlast hnext hmember
      · cases hfuel
        exact hmore hnext hmember hslash (ih hothers)

theorem memberNames_spec {fuel : Nat} {members : List Text}
    (h : memberNames fuel text = .ok (members, rest)) :
    members ≠ [] ∧ members.all isMember = true ∧ Passes 0 text 0 rest := by
  refine memberNames_induction (motive := fun text members => members ≠ [] ∧
    members.all isMember = true ∧ Passes 0 text 0 rest) ?_ ?_ h
  · intro text start member hnext hmember
    exact ⟨List.cons_ne_nil _ _, by simpa using hmember, passes_token hnext (by simp) 0⟩
  · rintro text start member afterName after others hnext hmember hslash ⟨-, hall, hmore⟩
    refine ⟨List.cons_ne_nil _ _, ?_,
      ((passes_token hnext (by simp) 0).trans (passes_symbol? hslash rfl)).trans hmore⟩
    rw [List.all_cons, hmember, hall]
    rfl

theorem memberPath_spec {route : PropertyAccess} (h : memberPath text = .ok (route, rest)) :
    route.IsMemberPath ∧ Passes 0 text 0 rest := by
  obtain ⟨⟨members, after⟩, hmembers, h⟩ := bind_eq_ok.mp h
  cases h
  obtain ⟨hnonempty, hall, hpasses⟩ := memberNames_spec hmembers
  exact ⟨⟨rfl, hnonempty, hall⟩, hpasses⟩

/-! ### Values that are kept as they are -/

theorem spanVerbatim_of_step {c : Char} {inQuotes inQuotes' : Bool}
    (h : step separates depth inQuotes c = some (depth', inQuotes')) (rest : Text) :
    spanVerbatim depth inQuotes (c :: rest) =
      (c :: (spanVerbatim depth' inQuotes' rest).1, (spanVerbatim depth' inQuotes' rest).2) := by
  have hspan := spanVerbatim.eq_def depth inQuotes (c :: rest)
  dsimp only at hspan
  rw [hspan]
  rw [step] at h
  by_cases hquote : c = quoteMark
  · rw [if_pos hquote] at h ⊢
    cases h
    rfl
  rw [if_neg hquote] at h ⊢
  by_cases hin : inQuotes = true
  · rw [if_pos hin] at h ⊢
    cases h
    rfl
  rw [if_neg hin] at h ⊢
  by_cases hopen : c = '('
  · rw [if_pos hopen] at h ⊢
    cases h
    rfl
  rw [if_neg hopen] at h ⊢
  by_cases hclose : c = ')'
  · rw [if_pos hclose] at h ⊢
    cases depth with
    | zero => cases h
    | succ depth =>
        cases h
        rfl
  rw [if_neg hclose] at h ⊢
  by_cases hcut : (separates c && decide (depth = 0)) = true
  · rw [if_pos hcut] at h
    cases h
  · rw [if_neg hcut] at h
    cases h
    exact if_neg hcut

theorem spanVerbatim_of_stop {c : Char} {inQuotes : Bool} (h : step separates depth inQuotes c = none)
    (rest : Text) :
    spanVerbatim depth inQuotes (c :: rest) = ([], c :: rest) ∧ depth = 0 ∧ inQuotes = false := by
  have hspan := spanVerbatim.eq_def depth inQuotes (c :: rest)
  dsimp only at hspan
  rw [hspan]
  rw [step] at h
  by_cases hquote : c = quoteMark
  · rw [if_pos hquote] at h
    cases h
  rw [if_neg hquote] at h ⊢
  by_cases hin : inQuotes = true
  · rw [if_pos hin] at h
    cases h
  rw [if_neg hin] at h ⊢
  by_cases hopen : c = '('
  · rw [if_pos hopen] at h
    cases h
  rw [if_neg hopen] at h ⊢
  by_cases hclose : c = ')'
  · rw [if_pos hclose] at h ⊢
    cases depth with
    | zero => exact ⟨rfl, rfl, by simpa using hin⟩
    | succ depth => cases h
  rw [if_neg hclose] at h ⊢
  by_cases hcut : (separates c && decide (depth = 0)) = true
  · have hdepth : depth = 0 := of_decide_eq_true (Bool.and_eq_true_iff.mp hcut).2
    exact ⟨if_pos hcut, hdepth, by simpa using hin⟩
  · rw [if_neg hcut] at h
    cases h

/-- What stands before the next separator is closed, unless the text ends first. -/
theorem spanVerbatim_spec (depth : Nat) (inQuotes : Bool) (text : Text) :
    text = (spanVerbatim depth inQuotes text).1 ++ (spanVerbatim depth inQuotes text).2 ∧
      ((spanVerbatim depth inQuotes text).2 ≠ [] → Nesting.after? separates depth inQuotes
        (spanVerbatim depth inQuotes text).1 = some (0, false)) := by
  induction text generalizing depth inQuotes with
  | nil => exact ⟨rfl, fun h => absurd rfl h⟩
  | cons c text ih =>
      cases hstep : step separates depth inQuotes c with
      | none =>
          obtain ⟨hspan, rfl, rfl⟩ := spanVerbatim_of_stop hstep text
          rw [hspan]
          exact ⟨rfl, fun _ => rfl⟩
      | some state =>
          obtain ⟨hsplit, hclosed⟩ := ih state.1 state.2
          rw [spanVerbatim_of_step hstep text]
          refine ⟨congrArg (c :: ·) hsplit, fun hrest => ?_⟩
          rw [Nesting.after?, hstep]
          exact hclosed hrest

/-- A closed text is kept whole before a separator or a surplus closing parenthesis. -/
theorem spanVerbatim_append {inQuotes inQuotes' : Bool} {taken : Text}
    (h : Nesting.after? separates depth inQuotes taken = some (depth', inQuotes')) (rest : Text) :
    spanVerbatim depth inQuotes (taken ++ rest) =
      (taken ++ (spanVerbatim depth' inQuotes' rest).1, (spanVerbatim depth' inQuotes' rest).2) := by
  induction taken generalizing depth inQuotes with
  | nil =>
      cases h
      rfl
  | cons c taken ih =>
      rw [Nesting.after?, Option.bind_eq_some_iff] at h
      obtain ⟨state, hstep, h⟩ := h
      rw [List.cons_append, spanVerbatim_of_step hstep, ih h]
      rfl

/-- A closed text is kept up to the mark that ends it. -/
theorem spanVerbatim_closed {taken : Text} (h : Closed separates taken) {mark : Symbol}
    (hmark : mark ∈ [.semicolon, .ampersand, .closeParen]) (rest : Text) :
    spanVerbatim 0 false (taken ++ mark.char :: rest) = (taken, mark.char :: rest) := by
  have hstop : step separates 0 false mark.char = none := by
    revert mark
    decide
  rw [spanVerbatim_append h, (spanVerbatim_of_stop hstop rest).1, List.append_nil]

/-- Where a scanner stops does not depend on what follows. -/
theorem spanVerbatim_append_right {inQuotes : Bool} (h : (spanVerbatim depth inQuotes text).2 ≠ [])
    (more : Text) : spanVerbatim depth inQuotes (text ++ more) =
      ((spanVerbatim depth inQuotes text).1, (spanVerbatim depth inQuotes text).2 ++ more) := by
  induction text generalizing depth inQuotes with
  | nil => exact absurd rfl h
  | cons c text ih =>
      cases hstep : step separates depth inQuotes c with
      | none =>
          rw [List.cons_append, (spanVerbatim_of_stop hstep _).1, (spanVerbatim_of_stop hstep _).1]
          rfl
      | some state =>
          rw [spanVerbatim_of_step hstep] at h
          rw [List.cons_append, spanVerbatim_of_step hstep, spanVerbatim_of_step hstep, ih h]

/-- Blanks around a text do not matter to a scanner. -/
theorem closed_trim (h : Closed separates text) : Closed separates text.trim := by
  have hblank : ∀ {blanks : Text} {depth : Nat} {inQuotes : Bool}, blanks.all isWhiteSpace = true →
      Nesting.after? separates depth inQuotes blanks = some (depth, inQuotes) := by
    intro blanks depth inQuotes hblanks
    apply after?_plain
    rw [List.all_eq_true] at hblanks ⊢
    exact fun c hc => Lexeme.isPlain_of_isWhiteSpace (hblanks c hc)
  obtain ⟨before, after, htext, hbefore, hafter⟩ := trim_decompose text
  rw [Closed, htext, List.append_assoc, after?_append_of_eq (hblank hbefore), after?_append] at h
  obtain ⟨state, hmiddle, hlast⟩ := Option.bind_eq_some_iff.mp h
  rw [hblank hafter] at hlast
  rw [Closed, hmiddle]
  exact hlast

end Reader

end ODataRequest
