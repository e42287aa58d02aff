import ODataRequest.Proofs.Cursor.Lexing
import ODataRequest.Proofs.Cursor.Descent
import ODataRequest.Proofs.Query.Positions

/-! Looking ahead. The tokens that wait in the queue of a run are those that come next in the text, with the
offsets where they begin and end, and what was read of the source ends with the last of them. Main statement:
what is looked at and taken is what the reader meets and leaves behind, and a raw value begins where the last
token ends. -/

namespace ODataRequest

open Text Unicode

/-- The text of a lexeme is a slice of the source. -/
theorem Lexeme.slice?_text {source text : Text} {lexeme : Lexeme} (htext : text <:+ source)
    (hnext : next? text = .ok (some lexeme)) :
    source.slice? (offsetOf source lexeme.start) (offsetOf source lexeme.rest) = some lexeme.text := by
  obtain ⟨-, word, -, -, hstart, -⟩ := stands_of_next? hnext
  have hbegins := (liesIn_of_next? htext hnext).start
  rw [hstart] at hbegins
  rw [Lexeme.text, hstart, List.length_append, Nat.add_sub_cancel, List.take_left]
  exact slice?_offsetOf hbegins

/-- A name that is rejected is shown as it is. -/
theorem Reader.unexpected_of_name {α : Type} {source text name start rest : Text} (htext : text <:+ source)
    (hnext : Lexeme.next? text = .ok (some ⟨.name name, start, rest⟩)) (expected : Expectation) :
    (unexpected expected text : Except Fault α) = .error (.unexpected expected (some name) start) := by
  have hname := (Lexeme.liesIn_of_next? htext hnext).name name rfl
  rw [unexpected, hnext, ← hname]
  rfl

namespace Cursor

namespace Run

theorem exec_dequeue {s : State} {first : Spanned} {others : List Spanned}
    (h : s.queue = first :: others) : dequeue.exec s =
      (.ok (some first), { s with queue := others, journal := .taken :: s.journal }) := by
  simp only [dequeue, h]

end Run

/-! ### What waits -/

/-- Tokens that are read from a text one after the other, with what is left of it. -/
inductive Queued (source : Text) : Text → List Spanned → Text → Prop where
  | nil (text : Text) : Queued source text [] text
  | cons {text tail : Text} {lexeme : Lexeme} {queue : List Spanned}
      (hnext : Lexeme.next? text = .ok (some lexeme)) (hrest : Queued source lexeme.rest queue tail) :
      Queued source text (.ofLexeme source lexeme :: queue) tail

/-- The lexeme at an index, counted from the beginning of a text. -/
def lookAt : Nat → Text → Except Fault (Option Lexeme)
  | 0, text => Lexeme.next? text
  | index + 1, text => do
    match ← Lexeme.next? text with
    | none => .ok none
    | some lexeme => lookAt index lexeme.rest

namespace Queued

variable {source text tail : Text} {queue : List Spanned} {index : Nat}

theorem suffix (h : Queued source text queue tail) (htext : text <:+ source) : tail <:+ source := by
  induction h with
  | nil text => exact htext
  | cons hnext _ ih => exact ih (Lexeme.liesIn_of_next? htext hnext).rest

theorem concat {lexeme : Lexeme} (h : Queued source text queue tail)
    (hnext : Lexeme.next? tail = .ok (some lexeme)) :
    Queued source text (queue ++ [.ofLexeme source lexeme]) lexeme.rest := by
  induction h with
  | nil text => exact .cons hnext (.nil _)
  | cons hfirst _ ih => exact .cons hfirst (ih hnext)

/-- A token that waits is the one that comes at its index. -/
theorem lookAt_of_lt (h : Queued source text queue tail) (hindex : index < queue.length) :
    ∃ lexeme, lookAt index text = .ok (some lexeme) ∧
      queue[index]? = some (.ofLexeme source lexeme) := by
  induction h generalizing index with
  | nil text => exact absurd hindex (Nat.not_lt_zero _)
  | cons hnext _ ih =>
      cases index with
      | zero => exact ⟨_, hnext, rfl⟩
      | succ index =>
          obtain ⟨lexeme, hlook, hqueue⟩ := ih (Nat.lt_of_succ_lt_succ hindex)
          refine ⟨lexeme, ?_, hqueue⟩
          rw [lookAt, hnext]
          exact hlook

/-- Beyond the tokens that wait comes what is left after them. -/
theorem lookAt_add (h : Queued source text queue tail) (index : Nat) :
    lookAt (queue.length + index) text = lookAt index tail := by
  induction h with
  | nil text => rw [List.length_nil, Nat.zero_add]
  | cons hnext _ ih =>
      rw [List.length_cons, Nat.add_right_comm, lookAt, hnext]
      exact ih

end Queued

theorem lookAt_of_blank {text : Text} (h : text.all isWhiteSpace = true) (index : Nat) :
    lookAt index text = .ok none := by
  have hnext := Lexeme.next?_of_blank h
  cases index with
  | zero => exact hnext
  | succ index =>
      rw [lookAt, hnext]
      rfl

/-- What comes after the next token. -/
theorem lookAt_one {text : Text} {lexeme : Lexeme} (h : Lexeme.next? text = .ok (some lexeme)) :
    lookAt 1 text = Lexeme.next? lexeme.rest := by
  rw [lookAt, h]
  rfl

theorem lookAt_slash {text after : Text} (h : Reader.symbol? .slash text = .ok (some after)) :
    lookAt 1 text = Lexeme.next? after := by
  obtain ⟨start, hnext⟩ := Reader.next?_of_symbol? h
  exact lookAt_one hnext

/-- A fault is met before anything behind it. -/
theorem lookAt_error {near far : Nat} {text : Text} {fault : Fault} (h : near ≤ far)
    (herror : lookAt near text = .error fault) : lookAt far text = .error fault := by
  induction near generalizing far text with
  | zero =>
      have hnext : Lexeme.next? text = .error fault := herror
      cases far with
      | zero => exact hnext
      | succ far =>
          rw [lookAt, hnext]
          rfl
  | succ near ih =>
      obtain ⟨far, rfl⟩ := Nat.exists_eq_add_one_of_ne_zero (Nat.ne_zero_of_lt h)
      rw [lookAt] at herror ⊢
      cases hnext : Lexeme.next? text with
      | error other =>
          rw [hnext] at herror
          exact herror
      | ok next =>
          rw [hnext] at herror
          cases next with
          | none => cases herror
          | some lexeme => exact ih (Nat.le_of_succ_le_succ h) herror

theorem lookAt_bind {near far : Nat} (h : near ≤ far) (text : Text) :
    lookAt far text = lookAt near text >>= fun _ => lookAt far text := by
  cases hnear : lookAt near text with
  | ok found => rfl
  | error fault => exact lookAt_error h hnear

/-- A run that has looked at so many tokens of a text. They wait, and the position is where the last of them
ends; or fewer of them wait, and the position is at the end, with nothing but white space after them. -/
structure Looked (input : Input) (text : Text) (count : Nat) (pending : List Stage) (s : State) : Prop where
  suffix : text <:+ input.source
  lawful : s.journal.Lawful input.source
  current : s.journal.position = s.position
  pending : s.journal.pending = pending
  waits : ∃ blanks unread, Queued input.source text s.queue (blanks ++ unread) ∧
    blanks.all isWhiteSpace = true ∧ s.position = offsetOf input.source unread ∧
    s.journal.readTo = offsetOf input.source (blanks ++ unread) ∧
    (s.queue.length = count ∧ blanks = [] ∨ s.queue.length < count ∧ unread = [])

theorem plainValue_eq (isNested : Bool) (text : Text) :
    text = (Reader.plainValue isNested text).1 ++ (Reader.plainValue isNested text).2 := by
  cases isNested with
  | false => exact (List.append_nil text).symm
  | true => exact (Reader.spanVerbatim_spec 0 false text).1

/-- The end of a raw value is looked for in a slice. -/
theorem Scanned.valueStop_eq {input : Input} {before s : State} {text : Text}
    (h : Scanned input before text s) (isNested : Bool) : ∃ s',
      (Run.valueStop input isNested (offsetOf input.source text)).exec s =
        (.ok (offsetOf input.source (Reader.plainValue isNested text).2), s') ∧
          Scanned input before text s' := by
  cases isNested with
  | false => exact ⟨s, rfl, h⟩
  | true =>
      have hspan := (Reader.spanVerbatim_spec 0 false text).1
      have hstop := offsetOf_rest (hspan ▸ h.suffix)
      obtain ⟨s', hslice, hs'⟩ := h.sliceFrom h.suffix
      refine ⟨s', ?_, hs'⟩
      rw [Run.valueStop, if_pos rfl, Run.bind_ok hslice, Reader.plainValue, if_pos rfl, hstop, ← hspan]
      rfl

namespace Looked

open Run

variable {input : Input} {text : Text} {count index : Nat} {pending : List Stage} {s : State}
  {lexeme : Lexeme}

/-- What comes at an index that was looked at is the token that waits there. -/
theorem getElem? (h : Looked input text count pending s) (hindex : index < count) :
    ∃ found, lookAt index text = .ok found ∧ s.queue[index]? = found.map (.ofLexeme input.source) := by
  obtain ⟨blanks, unread, hqueued, hblanks, -, -, hends⟩ := h.waits
  by_cases hlt : index < s.queue.length
  · obtain ⟨lexeme, hlook, hqueue⟩ := hqueued.lookAt_of_lt hlt
    exact ⟨some lexeme, hlook, hqueue⟩
  · rcases hends with ⟨hlength, -⟩ | ⟨-, rfl⟩
    · omega
    · obtain ⟨beyond, rfl⟩ := Nat.exists_eq_add_of_le (Nat.le_of_not_lt hlt)
      rw [List.append_nil] at hqueued
      refine ⟨none, ?_, List.getElem?_eq_none (Nat.le_add_right _ _)⟩
      rw [hqueued.lookAt_add]
      exact lookAt_of_blank hblanks beyond

/-- What a run comes to when it looks at one more token. -/
theorem agrees_fetch (h : Looked input text count pending s) :
    Agrees input (fun _ more s' => match more with
        | true => count = s.queue.length ∧ s'.queue.length = count + 1 ∧
          Looked input text (count + 1) pending s'
        | false => ∀ beyond, s.queue.length < beyond → Looked input text beyond pending s')
      (lookAt s.queue.length text) ((fetch input).exec s) := by
  obtain ⟨blanks, unread, hqueued, hblanks, hposition, hread, hends⟩ := h.waits
  have hsource := hqueued.suffix h.suffix
  have hunread := (List.suffix_append blanks unread).trans hsource
  have hscanned : Scanned input s unread s :=
    ⟨hunread, hposition, h.lawful, h.current, rfl, rfl, rfl⟩
  have hlook : lookAt s.queue.length text = (Lexeme.next? unread) := by
    rw [← Lexeme.next?_blanks hblanks]
    exact hqueued.lookAt_add 0
  rw [hlook, fetch]
  refine (agrees_next hscanned hsource hblanks hread).onward fun found token s' hnext hlexes => ?_
  cases hlexes with
  | ended hblank hs' =>
      intro beyond hbeyond
      refine ⟨h.suffix, hs'.lawful, hs'.current, hs'.pending.trans h.pending, blanks ++ unread, [], ?_, ?_,
        hs'.position, ?_, Or.inr ⟨?_, rfl⟩⟩
      · rw [hs'.queue, List.append_nil]
        exact hqueued
      · rw [List.all_append, hblanks, hblank]
        rfl
      · rw [hs'.readTo, List.append_nil]
        exact hread
      · rw [hs'.queue]
        exact hbeyond
  | lexed lexeme hs' =>
      have hcount : s.queue.length = count := by
        rcases hends with ⟨hlength, -⟩ | ⟨-, rfl⟩
        · exact hlength
        · cases hnext
      have hlength : (s'.queue ++ [Spanned.ofLexeme input.source lexeme]).length = count + 1 := by
        rw [hs'.queue, List.length_append, List.length_singleton, hcount]
      refine ⟨hcount.symm, hlength, h.suffix, hs'.lawful, hs'.current, hs'.pending.trans h.pending, [],
        lexeme.rest, ?_, rfl, hs'.position, hs'.readTo, Or.inl ⟨hlength, rfl⟩⟩
      rw [hs'.queue]
      exact hqueued.concat ((Lexeme.next?_blanks hblanks unread).trans hnext)

/-- Looking at tokens that wait changes nothing, and the tokens after them are queued one by one. -/
theorem agrees_fillMore (h : Looked input text count pending s) {missing : Nat}
    (hmissing : missing = index + 1 - s.queue.length) :
    Agrees input (fun _ _ s' => Looked input text (max count (index + 1)) pending s') (lookAt index text)
      ((fillMore input missing).exec s) := by
  have hcount : s.queue.length ≤ count := by
    obtain ⟨-, -, -, -, -, -, ⟨hlength, -⟩ | ⟨hlength, -⟩⟩ := h.waits <;> omega
  induction missing generalizing s count with
  | zero =>
      obtain ⟨found, hlook, -⟩ := h.getElem? (show index < count by omega)
      rw [hlook, fillMore, max_eq_left (by omega)]
      exact h
  | succ missing ih =>
      rw [lookAt_bind (show s.queue.length ≤ index by omega) text, fillMore]
      refine h.agrees_fetch.bind fun _ more s' _ hfetched => ?_
      cases more with
      | true =>
          obtain ⟨hlength, hlength', hs'⟩ := hfetched
          have hfilled := ih hs' (by omega) (by omega)
          rwa [max_eq_right (by omega)] at hfilled ⊢
      | false =>
          have hs' := hfetched (max count (index + 1)) (by omega)
          obtain ⟨found, hlook, -⟩ := hs'.getElem? (show index < max count (index + 1) by omega)
          rw [hlook]
          exact hs'

theorem agrees_fill (h : Looked input text count pending s) :
    Agrees input (fun _ _ s' => Looked input text (max count (index + 1)) pending s') (lookAt index text)
      ((fill input index).exec s) := by
  rw [fill, get_bind]
  exact h.agrees_fillMore rfl

/-- A look at the token at an index. -/
theorem agrees_peek {after : Text} (h : Looked input text count pending s)
    (hafter : lookAt index text = Lexeme.next? after) :
    Agrees input (fun found token s' => token = found.map Lexeme.token ∧
        Looked input text (max count (index + 1)) pending s')
      (Lexeme.next? after) ((peek input index).exec s) := by
  rw [← hafter, peek]
  refine h.agrees_fill.onward fun found _ s' hlook hs' => ⟨?_, hs'⟩
  obtain ⟨found', hlook', hqueue⟩ := hs'.getElem? (show index < max count (index + 1) by omega)
  rw [hlook] at hlook'
  cases hlook'
  rw [hqueue, Option.map_map]
  rfl

theorem agrees_peekSymbol {after : Text} (h : Looked input text count pending s)
    (hafter : lookAt index text = Lexeme.next? after) (symbol : Symbol) :
    Agrees input (fun found is s' => is = found.isSome ∧
        Looked input text (max count (index + 1)) pending s')
      (Reader.symbol? symbol after) ((peekSymbol input index symbol).exec s) := by
  rw [Reader.symbol?, peekSymbol]
  refine (h.agrees_peek hafter).bind fun found token s' _ hpeek => ?_
  obtain ⟨rfl, hs'⟩ := hpeek
  rcases found with _ | ⟨name | value | other, start, rest⟩
  · exact ⟨rfl, hs'⟩
  · exact ⟨rfl, hs'⟩
  · exact ⟨rfl, hs'⟩
  · refine ⟨?_, hs'⟩
    by_cases hsymbol : other = symbol <;> simp [hsymbol]

theorem agrees_peekWord {after : Text} (h : Looked input text count pending s)
    (hafter : lookAt index text = Lexeme.next? after) (word : Text) :
    Agrees input (fun found is s' => is = found.isSome ∧
        Looked input text (max count (index + 1)) pending s')
      (Reader.word? word after) ((peekWord input index word).exec s) := by
  rw [Reader.word?, peekWord]
  refine (h.agrees_peek hafter).bind fun found token s' _ hpeek => ?_
  obtain ⟨rfl, hs'⟩ := hpeek
  rcases found with _ | ⟨name | value | other, start, rest⟩
  · exact ⟨rfl, hs'⟩
  · refine ⟨?_, hs'⟩
    by_cases hword : name = word <;> simp [hword]
  · exact ⟨rfl, hs'⟩
  · exact ⟨rfl, hs'⟩

/-- The first token that waits is taken. -/
theorem dequeue_eq (h : Looked input text count pending s) (hcount : 0 < count)
    (hnext : Lexeme.next? text = .ok (some lexeme)) :
    ∃ s', dequeue.exec s = (.ok (some (.ofLexeme input.source lexeme)), s') ∧
      Looked input lexeme.rest (count - 1) [] s' := by
  obtain ⟨found, hlook, hfirst⟩ := h.getElem? hcount
  have hfound : Lexeme.next? text = .ok found := hlook
  rw [hnext] at hfound
  cases hfound
  obtain ⟨blanks, unread, hqueued, hblanks, hposition, hread, hends⟩ := h.waits
  have hrest := (Lexeme.liesIn_of_next? h.suffix hnext).rest
  cases hqueue : s.queue with
  | nil =>
      rw [hqueue] at hfirst
      cases hfirst
  | cons first others =>
      rw [hqueue] at hqueued hfirst hends
      cases hqueued with
      | cons hnext' hothers =>
          rw [hnext] at hnext'
          cases hnext'
          rw [exec_dequeue hqueue]
          refine ⟨_, rfl, hrest, ⟨trivial, h.lawful⟩, h.current, rfl, blanks, unread, hothers, hblanks,
            hposition, hread, ?_⟩
          rw [List.length_cons] at hends
          exact hends.imp (And.imp_left fun hlength => Nat.eq_sub_of_add_eq hlength)
            (And.imp_left fun hlength => Nat.lt_sub_of_add_lt hlength)

/-- The next token is taken. -/
theorem advance_eq (h : Looked input text count pending s)
    (hnext : Lexeme.next? text = .ok (some lexeme)) :
    ∃ s', (advance input).exec s = (.ok (some (.ofLexeme input.source lexeme)), s') ∧
      Looked input lexeme.rest (count - 1) [] s' := by
  have hfill : Agrees input _ (lookAt 0 text) ((fill input 0).exec s) := h.agrees_fill
  rw [show lookAt 0 text = .ok (some lexeme) from hnext] at hfill
  obtain ⟨_, s', hfill, hs'⟩ := hfill.exists_ok
  rw [advance, bind_ok hfill]
  obtain ⟨s', hdequeue, hs'⟩ := hs'.dequeue_eq (by omega) hnext
  refine ⟨s', hdequeue, ?_⟩
  rwa [show max count (0 + 1) - 1 = count - 1 by omega] at hs'

/-- A slash and the name behind it are taken. -/
theorem advance_segment {after word start rest : Text} (h : Looked input text count pending s)
    (hslash : Reader.symbol? .slash text = .ok (some after))
    (hnext : Lexeme.next? after = .ok (some ⟨.name word, start, rest⟩)) :
    ∃ s', Looked input rest (count - 2) [] s' ∧ ∀ {β : Type} (next : Run β),
      (advance input >>= fun _ => advance input >>= fun _ => next).exec s = next.exec s' := by
  obtain ⟨_, hnextSlash⟩ := Reader.next?_of_symbol? hslash
  obtain ⟨s₁, hadvance, hs₁⟩ := h.advance_eq hnextSlash
  obtain ⟨s₂, hadvance', hs₂⟩ := hs₁.advance_eq hnext
  refine ⟨s₂, hs₂, fun next => ?_⟩
  rw [bind_ok hadvance, bind_ok hadvance']

/-- The next token is the next lexeme, between the offsets where that begins and ends. -/
theorem agrees_front (h : Looked input text count pending s) :
    Agrees input (fun found token s' => token = found.map (.ofLexeme input.source) ∧
        Looked input text (max count 1) pending s')
      (Lexeme.next? text) ((front input).exec s) := by
  have hfill : Agrees input _ (lookAt 0 text) ((fill input 0).exec s) := h.agrees_fill
  refine hfill.onward fun found _ s' hlook hs' => ⟨?_, hs'⟩
  obtain ⟨found', hlook', hfirst⟩ := hs'.getElem? (show 0 < max count 1 by omega)
  rw [hlook] at hlook'
  cases hlook'
  rw [List.head?_eq_getElem?, hfirst]

/-- The next token is rejected. -/
theorem agrees_unexpected {α β : Type} {Related : α → β → State → Prop}
    (h : Looked input text count pending s) (expected : Expectation) :
    Agrees input Related (Reader.unexpected expected text) ((unexpected input expected).exec s) := by
  rw [Reader.unexpected, unexpected]
  refine h.agrees_front.bind fun found token s' hnext hfront => ?_
  obtain ⟨rfl, hs'⟩ := hfront
  cases found with
  | none => exact agrees_reject hs'.lawful expected none []
  | some lexeme =>
      have hslice := Lexeme.slice?_text h.suffix hnext
      dsimp only [Option.map_some, Spanned.ofLexeme]
      rw [bind_ok (slice_of_eq hslice s')]
      refine agrees_reject ?_ _ _ _
      exact ⟨exists_slice?_iff.mp ⟨_, hslice⟩, hs'.lawful⟩

/-- A name is taken, or the next token is rejected. -/
theorem agrees_expectName (h : Looked input text count pending s) (expected : Expectation) :
    Agrees input (fun name found s' => found = (name.1, offsetOf input.source name.2.1) ∧
        Looked input name.2.2 (count - 1) [] s')
      (Reader.name expected text) ((expectName input expected).exec s) := by
  rw [Reader.name, expectName]
  refine h.agrees_front.bind fun found token s' hnext hfront => ?_
  obtain ⟨rfl, hs'⟩ := hfront
  rcases found with _ | ⟨name | value | mark, start, rest⟩
  · exact hs'.agrees_unexpected expected
  · obtain ⟨s'', hdequeue, hs''⟩ := hs'.dequeue_eq (by omega) hnext
    dsimp only [Option.map_some, Spanned.ofLexeme]
    rw [bind_ok hdequeue]
    refine ⟨rfl, ?_⟩
    rwa [show max count 1 - 1 = count - 1 by omega] at hs''
  · exact hs'.agrees_unexpected expected
  · exact hs'.agrees_unexpected expected

theorem agrees_expectEnd (h : Looked input text count pending s) :
    Agrees input (fun _ _ s' => s'.journal.Lawful input.source) (Reader.atEnd text)
      ((expectEnd input).exec s) := by
  rw [Reader.atEnd, expectEnd]
  refine (h.agrees_peek (show lookAt 0 text = Lexeme.next? text from rfl)).bind
    fun found token s' _ hpeek => ?_
  obtain ⟨rfl, hs'⟩ := hpeek
  cases found with
  | none => exact hs'.lawful
  | some lexeme => exact hs'.agrees_unexpected _

/-- **A raw value begins where the last token ends.** While no token waits, the raw value of an option is
what stands from the position on, and the position moves to its end. -/
theorem rawValue_eq (h : Looked input text 0 pending s) (isNested : Bool) :
    ∃ s', (rawValue input isNested).exec s = (.ok (Reader.plainValue isNested text).1, s') ∧
      Looked input (Reader.plainValue isNested text).2 0 pending s' := by
  obtain ⟨blanks, unread, hqueued, -, hposition, hread, ⟨hlength, rfl⟩ | ⟨hlength, -⟩⟩ := h.waits
  · have hqueue := List.length_eq_zero_iff.mp hlength
    rw [hqueue, List.nil_append] at hqueued
    cases hqueued with
    | nil =>
        have hscanned : Scanned input s text s :=
          ⟨h.suffix, hposition, h.lawful, h.current, rfl, rfl, rfl⟩
        have hvalue := plainValue_eq isNested text
        have hrest := (Reader.plainValue_suffix isNested text).trans h.suffix
        have hsource : (Reader.plainValue isNested text).1 ++ (Reader.plainValue isNested text).2 <:+
            input.source := hvalue ▸ h.suffix
        have hstop := offsetOf_rest hsource
        have hslice := slice?_offsetOf hsource
        rw [← hvalue] at hstop hslice
        obtain ⟨s', hvalueStop, hs'⟩ := hscanned.valueStop_eq isNested
        rw [rawValue, get_bind, hqueue, hposition]
        dsimp only
        rw [bind_ok hvalueStop]
        refine ⟨_, slice_of_eq hslice _, hrest, ?_, rfl, hs'.pending.trans h.pending, [], _, .nil _, rfl,
          rfl, rfl, Or.inl ⟨rfl, rfl⟩⟩
        refine ⟨exists_slice?_iff.mp ⟨_, hslice⟩, ⟨?_, ?_, isBoundary_offsetOf hrest⟩,
          ⟨rfl, ?_, ?_, ?_⟩, hs'.lawful⟩
        · exact hs'.current.symm
        · rw [hs'.position, hstop]
          exact Nat.le_add_right _ _
        · rw [hs'.current, hs'.position]
        · rw [hs'.readTo, hread]
          rfl
        · rw [hstop]
          exact Nat.le_add_right _ _
  · exact absurd hlength (Nat.not_lt_zero _)

end Looked

end Cursor

end ODataRequest
