import ODataRequest.Proofs.Cursor.Lookahead

/-! Runs at rest, as they are between two parts of the grammar. Such a run has looked at the next token and
not beyond, unless that is a slash: then it may have looked at the token behind it, too. Main statement: what
is taken if it comes next, or must come next, is taken at rest, and then no token waits. -/

namespace ODataRequest

open Text

namespace Cursor

/-- A run at rest, which has not looked beyond the next token unless that is a slash. -/
def Settled (input : Input) (text : Text) (pending : List Stage) (s : State) : Prop :=
  ∃ count, Looked input text count pending s ∧
    (count ≤ 1 ∨ count = 2 ∧ ∃ after, Reader.symbol? .slash text = .ok (some after))

/-- What comes of taking something if it comes next: nothing changes, or it is taken and no token waits. -/
inductive Eaten (input : Input) (text : Text) (pending : List Stage) :
    Option Text → Bool → State → Prop where
  | left {s : State} (h : Settled input text pending s) : Eaten input text pending none false s
  | taken {s : State} {rest : Text} (h : Looked input rest 0 [] s) :
      Eaten input text pending (some rest) true s

theorem Looked.settled {input : Input} {text : Text} {count : Nat} {pending : List Stage} {s : State}
    (h : Looked input text count pending s) (hcount : count ≤ 1) : Settled input text pending s :=
  ⟨count, h, Or.inl hcount⟩

namespace Settled

open Run

variable {input : Input} {text : Text} {pending : List Stage} {s : State} {lexeme : Lexeme}

/-- Before a token that is no slash, at most that token was looked at. -/
theorem looked (h : Settled input text pending s) (hnext : Lexeme.next? text = .ok (some lexeme))
    (hslash : lexeme.token ≠ .symbol .slash) : ∃ count ≤ 1, Looked input text count pending s := by
  obtain ⟨count, hlooked, hcount | ⟨-, after, hafter⟩⟩ := h
  · exact ⟨count, hcount, hlooked⟩
  · obtain ⟨start, hnext'⟩ := Reader.next?_of_symbol? hafter
    rw [hnext] at hnext'
    cases hnext'
    exact absurd rfl hslash

theorem exists_looked (h : Settled input text pending s) :
    ∃ count ≤ 2, Looked input text count pending s := by
  obtain ⟨count, hlooked, hcount⟩ := h
  exact ⟨count, by omega, hlooked⟩

/-- A token that is no slash is taken, and no token waits. -/
theorem advance_eq (h : Settled input text pending s) (hnext : Lexeme.next? text = .ok (some lexeme))
    (hslash : lexeme.token ≠ .symbol .slash) :
    ∃ s', (advance input).exec s = (.ok (some (.ofLexeme input.source lexeme)), s') ∧
      Looked input lexeme.rest 0 [] s' := by
  obtain ⟨count, hcount, hlooked⟩ := h.looked hnext hslash
  obtain ⟨s', hadvance, hs'⟩ := hlooked.advance_eq hnext
  exact ⟨s', hadvance, Nat.sub_eq_zero_of_le hcount ▸ hs'⟩

/-- A look at the next token leaves a run at rest. -/
theorem of_peek {count : Nat} (h : Looked input text (max count 1) pending s)
    (hcount : count ≤ 1 ∨ count = 2 ∧ ∃ after, Reader.symbol? .slash text = .ok (some after)) :
    Settled input text pending s := by
  refine ⟨_, h, ?_⟩
  rcases hcount with hcount | ⟨rfl, hslash⟩
  · exact Or.inl (by omega)
  · exact Or.inr ⟨rfl, hslash⟩

theorem agrees_peek (h : Settled input text pending s) :
    Agrees input (fun found token s' => token = found.map Lexeme.token ∧ Settled input text pending s')
      (Lexeme.next? text) ((peek input 0).exec s) := by
  obtain ⟨count, hlooked, hcount⟩ := h
  exact (hlooked.agrees_peek (show lookAt 0 text = Lexeme.next? text from rfl)).imp
    fun _ _ _ _ hpeek => ⟨hpeek.1, of_peek hpeek.2 hcount⟩

theorem agrees_peekSymbol (h : Settled input text pending s) (symbol : Symbol) :
    Agrees input (fun found is s' => is = found.isSome ∧ Settled input text pending s')
      (Reader.symbol? symbol text) ((peekSymbol input 0 symbol).exec s) := by
  obtain ⟨count, hlooked, hcount⟩ := h
  exact (hlooked.agrees_peekSymbol (show lookAt 0 text = Lexeme.next? text from rfl) symbol).imp
    fun _ _ _ _ hpeek => ⟨hpeek.1, of_peek hpeek.2 hcount⟩

theorem agrees_peekWord (h : Settled input text pending s) (word : Text) :
    Agrees input (fun found is s' => is = found.isSome ∧ Settled input text pending s')
      (Reader.word? word text) ((peekWord input 0 word).exec s) := by
  obtain ⟨count, hlooked, hcount⟩ := h
  exact (hlooked.agrees_peekWord (show lookAt 0 text = Lexeme.next? text from rfl) word).imp
    fun _ _ _ _ hpeek => ⟨hpeek.1, of_peek hpeek.2 hcount⟩

theorem agrees_unexpected {α β : Type} {Related : α → β → State → Prop}
    (h : Settled input text pending s) (expected : Expectation) :
    Agrees input Related (Reader.unexpected expected text) ((unexpected input expected).exec s) := by
  obtain ⟨count, hlooked, -⟩ := h
  exact hlooked.agrees_unexpected expected

theorem agrees_eat (h : Settled input text pending s) {symbol : Symbol} (hsymbol : symbol ≠ .slash) :
    Agrees input (Eaten input text pending) (Reader.symbol? symbol text) ((eat input symbol).exec s) := by
  rw [eat]
  refine (h.agrees_peekSymbol symbol).onward fun found is s' hfound hpeek => ?_
  obtain ⟨rfl, hs'⟩ := hpeek
  cases found with
  | none => exact .left hs'
  | some rest =>
      obtain ⟨start, hnext⟩ := Reader.next?_of_symbol? hfound
      obtain ⟨s'', hadvance, hs''⟩ := hs'.advance_eq hnext (fun heq => hsymbol (Token.symbol.inj heq))
      rw [Option.isSome_some, if_pos rfl, bind_ok hadvance]
      exact .taken hs''

theorem agrees_eatWord (h : Settled input text pending s) (word : Text) :
    Agrees input (Eaten input text pending) (Reader.word? word text) ((eatWord input word).exec s) := by
  rw [eatWord]
  refine (h.agrees_peekWord word).onward fun found is s' hfound hpeek => ?_
  obtain ⟨rfl, hs'⟩ := hpeek
  cases found with
  | none => exact .left hs'
  | some rest =>
      obtain ⟨start, hnext⟩ := Reader.next?_of_word? hfound
      obtain ⟨s'', hadvance, hs''⟩ := hs'.advance_eq hnext nofun
      rw [Option.isSome_some, if_pos rfl, bind_ok hadvance]
      exact .taken hs''

theorem agrees_eatControlSegment (h : Settled input text pending s) (segment : Text) :
    Agrees input (Eaten input text pending) (Reader.controlSegment? segment text)
      ((eatControlSegment input segment).exec s) := by
  rw [Reader.controlSegment?, eatControlSegment]
  refine (h.agrees_peekSymbol .slash).bind fun slash is s' hslash hpeek => ?_
  obtain ⟨rfl, hs'⟩ := hpeek
  cases slash with
  | none => exact .left hs'
  | some after =>
      obtain ⟨count, hcount, hlooked⟩ := hs'.exists_looked
      rw [Option.isSome_some, if_pos rfl]
      refine (hlooked.agrees_peekWord (lookAt_slash hslash) segment).onward fun found is s' hfound hpeek => ?_
      obtain ⟨rfl, hs'⟩ := hpeek
      rw [max_eq_right (show count ≤ 1 + 1 from hcount)] at hs'
      cases found with
      | none => exact .left ⟨2, hs', Or.inr ⟨rfl, after, hslash⟩⟩
      | some rest =>
          obtain ⟨_, hnext⟩ := Reader.next?_of_word? hfound
          obtain ⟨s'', hs'', hadvance⟩ := hs'.advance_segment hslash hnext
          rw [Option.isSome_some, if_pos rfl, hadvance]
          exact .taken hs''

theorem agrees_expect (h : Settled input text pending s) {symbol : Symbol} (hsymbol : symbol ≠ .slash)
    (expected : Expectation) : Agrees input (fun rest _ s' => Looked input rest 0 [] s')
      (Reader.symbol symbol expected text) ((expect input symbol expected).exec s) := by
  rw [Reader.symbol, expect]
  refine (h.agrees_eat hsymbol).bind fun found eaten s' _ heaten => ?_
  cases heaten with
  | left hs' => exact hs'.agrees_unexpected expected
  | taken hs' => exact hs'

/-- A name is taken, and no token waits. -/
theorem agrees_expectName (h : Settled input text pending s) (expected : Expectation) :
    Agrees input (fun name found s' => found = (name.1, offsetOf input.source name.2.1) ∧
        Looked input name.2.2 0 [] s')
      (Reader.name expected text) ((expectName input expected).exec s) := by
  obtain ⟨count, hlooked, hcount⟩ := h
  refine (hlooked.agrees_expectName expected).imp fun name found s' hname hfound => ⟨hfound.1, ?_⟩
  rcases hcount with hcount | ⟨rfl, after, hslash⟩
  · exact Nat.sub_eq_zero_of_le hcount ▸ hfound.2
  · obtain ⟨start, hnext⟩ := Reader.next?_of_symbol? hslash
    rw [Reader.next?_of_name hname] at hnext
    cases hnext

end Settled

end Cursor

end ODataRequest
