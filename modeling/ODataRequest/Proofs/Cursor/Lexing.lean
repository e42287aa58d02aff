import ODataRequest.Proofs.Cursor.Run
import ODataRequest.Proofs.Query.Scanning

/-! The lexer over bytes agrees with the lexer over characters. A run agrees with a reading if both give
related values or the run rejects the source for the fault of the reading; its journal is lawful either way,
and sequencing keeps this. While a token is scanned the position moves to later ends of the source and
slices are taken between ends, so that none of them fails. Main statement: the next token of a run is the
next lexeme of what is unread, between the offsets where that begins and ends. -/

namespace ODataRequest

open Text Unicode

namespace Cursor

/-- A run that ends as a reading does: with a related value, or rejecting the source for the same fault
after a lawful journal. -/
def Agrees (input : Input) {α β : Type} (Related : α → β → State → Prop) :
    Except Fault α → Except Failure β × State → Prop
  | .ok value, (.ok result, s) => Related value result s
  | .error fault, (.error failure, s) =>
    failure = .rejected (.ofFault input.option input.source input.maxDepth fault) ∧
      s.journal.Lawful input.source
  | _, _ => False

namespace Run

variable {α β : Type} {run : Run α} {next : α → Run β} {s s' : State} {value : α}

theorem bind_ok (h : run.exec s = (.ok value, s')) : (run >>= next).exec s = (next value).exec s' := by
  rw [exec_bind, h]

theorem pure_bind (value : α) (next : α → Run β) (s : State) :
    (pure value >>= next).exec s = (next value).exec s :=
  rfl

theorem get_bind (next : State → Run β) (s : State) : (get >>= next).exec s = (next s).exec s :=
  rfl

theorem bind_assoc {γ : Type} (run : Run α) (next : α → Run β) (last : β → Run γ) (s : State) :
    ((run >>= next) >>= last).exec s = (run >>= fun value => next value >>= last).exec s := by
  rw [exec_bind, exec_bind, exec_bind]
  cases run.exec s with
  | mk result s' => cases result <;> rfl

theorem slice_of_eq {input : Input} {start stop : Nat} {word : Text}
    (h : input.source.slice? start stop = some word) (s : State) : (slice input start stop).exec s =
      (.ok word, { s with journal := .sliced start stop :: s.journal }) := by
  rw [slice, h]

/-- A rejection says where the fault lies. -/
theorem agrees_reject {input : Input} {Related : α → β → State → Prop}
    (h : s.journal.Lawful input.source) (expected : Expectation) (found : Option Text) (unread : Text) :
    Agrees input Related (.error (.unexpected expected found unread))
      ((reject input (offsetOf input.source unread) expected found).exec s) :=
  ⟨rfl, h⟩

end Run

namespace Agrees

variable {input : Input} {α β γ δ : Type} {Related : α → β → State → Prop}
  {Related' : γ → δ → State → Prop} {read : Except Fault α} {run : Run β} {s : State}

/-- What agrees goes on agreeing if the next steps do. -/
theorem bind {nextRead : α → Except Fault γ} {nextRun : β → Run δ}
    (h : Agrees input Related read (run.exec s))
    (hnext : ∀ value result s', read = .ok value → Related value result s' →
      Agrees input Related' (nextRead value) ((nextRun result).exec s')) :
    Agrees input Related' (read >>= nextRead) ((run >>= nextRun).exec s) := by
  rw [Run.exec_bind]
  cases hrun : run.exec s with
  | mk result s' =>
      rw [hrun] at h
      cases result with
      | ok result =>
          cases read with
          | ok value => exact hnext value result s' rfl h
          | error fault => exact h.elim
      | error failure =>
          cases read with
          | ok value => exact h.elim
          | error fault => exact h

theorem imp {Related' : α → β → State → Prop} (h : Agrees input Related read (run.exec s))
    (himp : ∀ value result s', read = .ok value → Related value result s' → Related' value result s') :
    Agrees input Related' read (run.exec s) := by
  cases hrun : run.exec s with
  | mk result s' =>
      rw [hrun] at h
      cases read <;> cases result <;> first | exact himp _ _ _ rfl h | exact h

theorem exists_ok {value : α} (h : Agrees input Related (.ok value) (run.exec s)) :
    ∃ result s', run.exec s = (.ok result, s') ∧ Related value result s' := by
  cases hrun : run.exec s with
  | mk result s' =>
      rw [hrun] at h
      cases result with
      | ok result => exact ⟨result, s', rfl, h⟩
      | error failure => exact h.elim

/-- The next steps of the run alone. -/
theorem onward {Related' : α → δ → State → Prop} {nextRun : β → Run δ}
    (h : Agrees input Related read (run.exec s))
    (hnext : ∀ value result s', read = .ok value → Related value result s' →
      Agrees input Related' (.ok value) ((nextRun result).exec s')) :
    Agrees input Related' read ((run >>= nextRun).exec s) := by
  have hread : read = read >>= .ok := by cases read <;> rfl
  rw [hread]
  exact h.bind hnext

theorem map {f : α → γ} {nextRun : β → Run δ} (h : Agrees input Related read (run.exec s))
    (hnext : ∀ value result s', read = .ok value → Related value result s' →
      Agrees input Related' (.ok (f value)) ((nextRun result).exec s')) :
    Agrees input Related' (read.map f) ((run >>= nextRun).exec s) := by
  have hmap : read.map f = read >>= fun value => .ok (f value) := by cases read <;> rfl
  rw [hmap]
  exact h.bind hnext

end Agrees

/-- A state from which one with another reading position was reached by slices and moves alone: what is
unread is an end of the source. -/
structure Scanned (input : Input) (before : State) (text : Text) (s : State) : Prop where
  suffix : text <:+ input.source
  position : s.position = offsetOf input.source text
  lawful : s.journal.Lawful input.source
  current : s.journal.position = s.position
  queue : s.queue = before.queue
  pending : s.journal.pending = before.journal.pending
  readTo : s.journal.readTo = before.journal.readTo

namespace Scanned

open Run

variable {input : Input} {before s : State} {text word rest : Text}

theorem sliced {start stop : Nat} (h : Scanned input before text s)
    (hslice : input.source.slice? start stop = some word) :
    Scanned input before text { s with journal := .sliced start stop :: s.journal } :=
  { h with lawful := ⟨exists_slice?_iff.mp ⟨word, hslice⟩, h.lawful⟩ }

/-- A slice between two ends of the source is what stands between them. -/
theorem slice (h : Scanned input before text s) (hslice : word ++ rest <:+ input.source) :
    ∃ s', (slice input (offsetOf input.source (word ++ rest)) (offsetOf input.source rest)).exec s =
      (.ok word, s') ∧ Scanned input before text s' :=
  ⟨_, slice_of_eq (slice?_offsetOf hslice) s, h.sliced (slice?_offsetOf hslice)⟩

theorem sliceFrom (h : Scanned input before text s) (hrest : rest <:+ input.source) :
    ∃ s', (sliceFrom input (offsetOf input.source rest)).exec s = (.ok rest, s') ∧
      Scanned input before text s' := by
  rw [← List.append_nil rest] at hrest
  have hslice := h.slice hrest
  rwa [List.append_nil] at hslice

/-- The position moves on to a later end of the source. -/
theorem moveTo (h : Scanned input before text s) (hrest : rest <:+ text) :
    ∃ s', (moveTo (offsetOf input.source rest)).exec s = (.ok (), s') ∧ Scanned input before rest s' := by
  have hsuffix := hrest.trans h.suffix
  refine ⟨_, rfl, { h with
    suffix := hsuffix, position := rfl, current := rfl
    lawful := ⟨⟨h.current.symm, ?_, isBoundary_offsetOf hsuffix⟩, h.lawful⟩ }⟩
  obtain ⟨front, rfl⟩ := hrest
  rw [h.position, offsetOf_rest h.suffix]
  exact Nat.le_add_right _ _

end Scanned

/-- A token is scanned, and the position is after it. -/
def Scans (input : Input) (before : State) (scanned : Token × Text) (token : Token) (s : State) : Prop :=
  token = scanned.1 ∧ Scanned input before scanned.2 s

namespace Run

variable {input : Input} {before s : State} {text word rest start : Text} {first : Char}

theorem agrees_literal (h : Scanned input before rest s) (hword : word ++ rest <:+ input.source) :
    Agrees input (Scans input before) ((Lexeme.literalToken word).map (·, rest))
      ((literal input (offsetOf input.source (word ++ rest)) (offsetOf input.source rest)).exec s) := by
  obtain ⟨s', hslice, hs'⟩ := h.slice hword
  rw [literal, bind_ok hslice, Lexeme.literalToken]
  cases Literal.parse word with
  | ok value => exact ⟨rfl, hs'⟩
  | error e => exact ⟨rfl, hs'.lawful⟩

theorem agrees_number (h : Scanned input before start s)
    (hdigit : (Number.unsigned start).head?.any Char.isDigit = true) :
    Agrees input (Scans input before) (Lexeme.scanNumber start) ((number input).exec s) := by
  have hspan := (Number.spanNumber_spec hdigit).2
  have hrest : (Lexeme.spanNumber start).2 <:+ start := ⟨_, hspan.symm⟩
  rw [number, get_bind, h.position, Utf8.numberEnd_offsetOf h.suffix, Lexeme.scanNumber]
  dsimp only
  obtain ⟨s', hslice, hs'⟩ := h.sliceFrom (hrest.trans h.suffix)
  rw [bind_ok hslice]
  split
  · obtain ⟨s', hslice, hs'⟩ := hs'.sliceFrom h.suffix
    rw [bind_ok hslice]
    exact agrees_reject hs'.lawful _ _ _
  · obtain ⟨s', hmove, hs'⟩ := hs'.moveTo hrest
    rw [bind_ok hmove]
    have hliteral := agrees_literal hs' (hspan ▸ h.suffix)
    rwa [← hspan] at hliteral

theorem agrees_quoted {others : Text} (typeName : Text)
    (h : Scanned input before (typeName ++ quoteMark :: others) s) :
    Agrees input (Scans input before) (Lexeme.scanQuoted typeName (quoteMark :: others))
      ((quoted input (offsetOf input.source (typeName ++ quoteMark :: others))
        (offsetOf input.source (quoteMark :: others))).exec s) := by
  have hquote : quoteMark :: others <:+ input.source := (List.suffix_append _ _).trans h.suffix
  have hothers := Utf8.suffix_tail hquote
  rw [quoted, quotedEnd, Utf8.offsetOf_succ hquote (by decide), Utf8.drop_offsetOf hothers,
    Utf8.quoteEnd?_encode, Lexeme.scanQuoted, List.tail_cons]
  cases hspan : Lexeme.spanQuoted? others with
  | none => exact agrees_reject h.lawful _ _ _
  | some parts =>
      obtain ⟨content, rest⟩ := parts
      obtain rfl := Lexeme.eq_of_spanQuoted? hspan
      have hword : typeName ++ quoteMark :: (content ++ rest) =
          (typeName ++ quoteMark :: content) ++ rest := by simp
      rw [Option.map_some]
      dsimp only
      rw [← offsetOf_rest hothers, pure_bind]
      have hrest : rest <:+ typeName ++ quoteMark :: (content ++ rest) :=
        hword ▸ List.suffix_append _ rest
      obtain ⟨s', hmove, hs'⟩ := h.moveTo hrest
      rw [bind_ok hmove, hword]
      exact agrees_literal hs' (hword ▸ h.suffix)

theorem agrees_endWord {word : Text} (h : Scanned input before (word ++ rest) s) :
    Agrees input (Scans input before) (.ok (Lexeme.wordToken word, rest))
      ((endWord word (offsetOf input.source rest)).exec s) := by
  obtain ⟨s', hmove, hs'⟩ := h.moveTo (List.suffix_append word rest)
  rw [endWord, bind_ok hmove]
  exact ⟨rfl, hs'⟩

theorem agrees_word (h : Scanned input before (first :: rest) s) :
    Agrees input (Scans input before) (Lexeme.scanWord first rest) ((Run.word input).exec s) := by
  have hsplit : first :: rest =
      (first :: rest.takeWhile Lexeme.isNameContinue) ++ rest.dropWhile Lexeme.isNameContinue := by
    rw [List.cons_append, List.takeWhile_append_dropWhile]
  have hafter : rest.dropWhile Lexeme.isNameContinue <:+ input.source := by
    refine List.IsSuffix.trans ?_ h.suffix
    rw [hsplit]
    exact List.suffix_append _ _
  have hstop : offsetOf input.source (first :: rest) +
      utf8Length ((first :: rest).take 1 ++ ((first :: rest).drop 1).takeWhile Lexeme.isNameContinue) =
        offsetOf input.source (rest.dropWhile Lexeme.isNameContinue) := by
    have hrest := offsetOf_rest (hsplit ▸ h.suffix)
    rw [← hsplit] at hrest
    exact hrest.symm
  rw [Run.word, get_bind, h.position]
  obtain ⟨s', hslice, hs'⟩ := h.sliceFrom h.suffix
  rw [bind_ok hslice, hstop]
  obtain ⟨s', hslice, hs'⟩ := hs'.slice (hsplit ▸ h.suffix)
  rw [← hsplit] at hslice
  rw [bind_ok hslice, Lexeme.scanWord]
  cases hpoint : (first :: rest.takeWhile Lexeme.isNameContinue).contains '.' with
  | false =>
      rw [Bool.false_and, if_neg Bool.false_ne_true, if_neg Bool.false_ne_true]
      exact agrees_endWord (hsplit ▸ hs')
  | true =>
      obtain ⟨s', hslice, hs'⟩ := hs'.sliceFrom hafter
      rw [if_pos rfl, bind_ok hslice]
      simp only [Bool.true_and, decide_eq_true_eq]
      split
      · rename_i hquote
        obtain ⟨others, hothers⟩ := List.head?_eq_some_iff.mp hquote
        rw [hothers] at hsplit ⊢
        rw [hsplit] at hs' ⊢
        exact agrees_quoted _ hs'
      · exact agrees_endWord (hsplit ▸ hs')

/-! ### GUIDs -/

/-- The thirty-six characters of a GUID take a byte each. -/
theorem utf8Length_of_isGuid {word : Text} (h : isGuid word = true) : utf8Length word = Guid.length := by
  have hascii : ∀ c ∈ word, c.toNat < 0x80 := by
    intro c hc
    rcases mem_of_isGuid h hc with hhex | rfl
    · have := isHexDigit_iff.mp hhex
      omega
    · decide
  rw [Utf8.utf8Length_of_ascii hascii, length_of_isGuid h]

/-- The window of as many bytes as a GUID has is the one of as many characters, if either is a GUID. -/
theorem slice?_guid (h : start <:+ input.source) (hguid : isGuid (start.take Guid.length) = true) :
    input.source.slice? (offsetOf input.source start) (offsetOf input.source start + Guid.length) =
        some (start.take Guid.length) ∧
      offsetOf input.source start + Guid.length = offsetOf input.source (start.drop Guid.length) := by
  have hsplit : start.take Guid.length ++ start.drop Guid.length <:+ input.source := by
    rwa [List.take_append_drop]
  have hstop := offsetOf_rest hsplit
  have hslice := slice?_offsetOf hsplit
  rw [List.take_append_drop, utf8Length_of_isGuid hguid] at hstop
  rw [List.take_append_drop, hstop] at hslice
  exact ⟨hslice, hstop.symm⟩

theorem isGuid_of_slice? (h : start <:+ input.source) {word : Text} (hguid : isGuid word = true)
    (hslice : input.source.slice? (offsetOf input.source start) (offsetOf input.source start + Guid.length) =
      some word) : start.take Guid.length = word := by
  obtain ⟨front, rest, hsource, hfront, -⟩ := slice?_eq_some_iff.mp hslice
  obtain ⟨before, hbefore⟩ := h
  have hunread : start = word ++ rest := by
    have hfrom := from?_eq_some_iff.mpr ⟨front, hsource, hfront⟩
    rw [from?_eq_some_iff.mpr ⟨before, hbefore.symm, by rw [← hbefore, offsetOf_append]⟩] at hfrom
    exact Option.some.inj hfrom
  rw [hunread, ← length_of_isGuid hguid, List.take_left]

theorem startsWithGuid_eq (h : Scanned input before start s) :
    ∃ s', (startsWithGuid input).exec s = (.ok (Lexeme.startsWithGuid start), s') ∧
      Scanned input before start s' := by
  rw [startsWithGuid, get_bind, h.position, Lexeme.startsWithGuid]
  dsimp only
  cases hguid : isGuid (start.take Guid.length) with
  | true =>
      obtain ⟨hslice, hstop⟩ := slice?_guid h.suffix hguid
      have hnoted := h.sliced hslice
      rw [hslice]
      dsimp only
      rw [bind_ok rfl, hguid, if_pos rfl, hstop]
      obtain ⟨s', hrest, hs'⟩ := hnoted.sliceFrom ((List.drop_suffix Guid.length start).trans h.suffix)
      rw [hstop] at hrest
      exact ⟨s', by rw [bind_ok hrest]; rfl, hs'⟩
  | false =>
      cases hslice : input.source.slice? (offsetOf input.source start)
          (offsetOf input.source start + Guid.length) with
      | none => exact ⟨s, rfl, h⟩
      | some word =>
          have hword : isGuid word = false := by
            rw [Bool.eq_false_iff]
            intro hword
            rw [isGuid_of_slice? h.suffix hword hslice, hword] at hguid
            cases hguid
          dsimp only
          rw [bind_ok rfl, hword, if_neg Bool.false_ne_true]
          exact ⟨_, rfl, h.sliced hslice⟩

theorem beginsGuid_eq (h : Scanned input before (first :: rest) s) :
    ∃ s', (beginsGuid input first).exec s = (.ok (Lexeme.startsWithGuid (first :: rest)), s') ∧
      Scanned input before (first :: rest) s' := by
  rw [beginsGuid]
  cases hhex : isHexDigit first with
  | true => exact startsWithGuid_eq h
  | false =>
      rw [Lexeme.startsWithGuid_cons hhex]
      exact ⟨s, rfl, h⟩

theorem agrees_guid (h : Scanned input before start s) (hguid : Lexeme.startsWithGuid start = true) :
    Agrees input (Scans input before)
      (.ok (.literal (.guid ((start.take Guid.length).map Char.toLower)), start.drop Guid.length))
      ((guid input).exec s) := by
  rw [Lexeme.startsWithGuid, Bool.and_eq_true] at hguid
  obtain ⟨hslice, hstop⟩ := slice?_guid h.suffix hguid.1
  rw [guid, get_bind, h.position, bind_ok (slice_of_eq hslice s), hstop]
  obtain ⟨s', hmove, hs'⟩ := (h.sliced hslice).moveTo (List.drop_suffix Guid.length start)
  rw [hstop] at hmove
  rw [bind_ok hmove]
  exact ⟨rfl, hs'⟩

/-! ### Tokens -/

theorem agrees_mark (h : Scanned input before (first :: rest) s) (hfirst : first.toNat < 0x80)
    (symbol : Symbol) : Agrees input (Scans input before) (.ok (.symbol symbol, rest))
      ((mark symbol).exec s) := by
  rw [mark, get_bind, h.position, Utf8.offsetOf_succ h.suffix hfirst]
  obtain ⟨s', hmove, hs'⟩ := h.moveTo (List.suffix_cons first rest)
  rw [bind_ok hmove]
  exact ⟨rfl, hs'⟩

theorem ascii_of_ofChar? {symbol : Symbol} (h : Symbol.ofChar? first = some symbol) :
    first.toNat < 0x80 := by
  rw [Symbol.char_of_ofChar? h]
  cases symbol <;> decide

/-- The token at the beginning of a text that is not blank is scanned as its characters are. -/
theorem agrees_token (h : Scanned input before (first :: rest) s) :
    Agrees input (Scans input before) (Lexeme.scan first rest) ((token input first).exec s) := by
  rw [token, Lexeme.scan]
  cases hsymbol : Symbol.ofChar? first with
  | some symbol => exact agrees_mark h (ascii_of_ofChar? hsymbol) symbol
  | none =>
      dsimp only
      rw [get_bind, h.position]
      split
      · rename_i hquote
        subst hquote
        exact agrees_quoted [] h
      obtain ⟨s', hbegins, hs'⟩ := beginsGuid_eq h
      rw [bind_ok hbegins]
      split
      · rename_i hguid
        exact agrees_guid hs' hguid
      split
      · rename_i hminus
        subst hminus
        have hrest := Utf8.suffix_tail h.suffix
        rw [Utf8.offsetOf_succ h.suffix (by decide)]
        obtain ⟨s', hslice, hs'⟩ := hs'.sliceFrom hrest
        rw [bind_ok hslice]
        split
        · rename_i hdigit
          exact agrees_number hs' hdigit
        · exact agrees_mark hs' (by decide) .minus
      split
      · rename_i hminus hdigit
        refine agrees_number hs' ?_
        rw [Number.unsigned]
        · exact hdigit
        · exact fun digits heq => hminus (List.cons.inj heq).1
      split
      · exact agrees_word hs'
      · exact agrees_reject hs'.lawful _ _ _

theorem skipBlanks_eq (h : Scanned input before text s) :
    ∃ s', (skipBlanks input).exec s = (.ok (), s') ∧ Scanned input before (trimStart text) s' := by
  obtain ⟨blanks, htext, -⟩ := trimStart_decompose text
  have hstop : offsetOf input.source text + (utf8Length text - utf8Length (trimStart text)) =
      offsetOf input.source (trimStart text) := by
    have hrest := offsetOf_rest (htext ▸ h.suffix)
    have hlength := congrArg utf8Length htext
    rw [← htext] at hrest
    rw [utf8Length_append] at hlength
    rw [hrest, hlength, Nat.add_sub_cancel]
  rw [skipBlanks, get_bind, h.position]
  obtain ⟨s', hslice, hs'⟩ := h.sliceFrom h.suffix
  rw [bind_ok hslice, hstop]
  exact hs'.moveTo (List.dropWhile_suffix _)

end Run

/-- What comes of looking for the next token of a text. -/
inductive Lexes (input : Input) (before : State) (text : Text) :
    Option Lexeme → Option Spanned → State → Prop where
  | ended {s : State} (hblank : text.all isWhiteSpace = true) (h : Scanned input before [] s) :
      Lexes input before text none none s
  | lexed {s : State} (lexeme : Lexeme) (h : Scanned input { before with
        journal := .lexed (offsetOf input.source lexeme.start) (offsetOf input.source lexeme.rest) ::
          before.journal } lexeme.rest s) :
      Lexes input before text (some lexeme) (some (.ofLexeme input.source lexeme)) s

namespace Run

variable {input : Input} {s : State} {blanks text : Text}

/-- **The next token is the next lexeme.** After nothing but white space since the last token, the run finds
the token of the next lexeme, between the offsets where it begins and ends, or the same fault. -/
theorem agrees_next (h : Scanned input s text s) (hsource : blanks ++ text <:+ input.source)
    (hblanks : blanks.all isWhiteSpace = true)
    (hread : s.journal.readTo = offsetOf input.source (blanks ++ text)) :
    Agrees input (Lexes input s text) (Lexeme.next? text) ((next input).exec s) := by
  obtain ⟨skipped, htext, hskipped⟩ := trimStart_decompose text
  obtain ⟨s', hskip, hs'⟩ := skipBlanks_eq h
  rw [next, bind_ok hskip, get_bind, hs'.position]
  obtain ⟨s', hslice, hs'⟩ := hs'.sliceFrom hs'.suffix
  rw [bind_ok hslice, Lexeme.next?]
  cases hstart : trimStart text with
  | nil =>
      rw [hstart] at hs'
      exact .ended (all_blank_of_trimStart_eq_nil hstart) hs'
  | cons first rest =>
      rw [hstart] at htext hs'
      have hbegins := hs'.suffix
      refine (agrees_token hs').map fun scanned token s' hscan hscans => ?_
      obtain ⟨rfl, hs'⟩ := hscans
      obtain ⟨word, hword, hstands⟩ := Lexeme.stands_of_scan hscan
      have hpositive := utf8Length_pos hstands.spells.ne_nil
      have hstop := offsetOf_rest (hword ▸ hbegins)
      have hblank : input.source.IsBlank (offsetOf input.source (blanks ++ text))
          (offsetOf input.source (first :: rest)) := by
        rw [htext, ← List.append_assoc] at hsource ⊢
        exact isBlank_offsetOf hsource (by rw [List.all_append, hblanks, hskipped]; rfl)
      rw [← hword] at hstop
      rw [get_bind, hs'.position]
      refine .lexed ⟨scanned.1, first :: rest, scanned.2⟩ { hs' with
        readTo := rfl, lawful := ⟨⟨?_, ?_, ?_⟩, hs'.lawful⟩ }
      · omega
      · rw [hs'.current, hs'.position]
      · rwa [hs'.readTo, hread]

end Run

end Cursor

end ODataRequest
