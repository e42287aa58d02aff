import ODataRequest.Proofs.Cursor.Settled
import ODataRequest.Proofs.Query.OptionRetelling

/-! Tracking a reader. A run tracks a reader if, from rest to rest, it reads what the reader reads and enters
no stage of the grammar twice between two tokens. The latter is kept by ranks: a stage leads only to stages
further in until a token is taken, and what ends leaves only stages further in. Main statements: lists,
member paths and operators between operands track their readers if their parts do, where the loops may turn
as often as the text has characters, and once more. -/

namespace ODataRequest

open Text Reader

namespace Cursor

/-! ### Stages since the last token -/

/-- How far out in the grammar a stage is. Until a token is taken, a stage leads only to stages of lower
rank, and a stage that comes to its end has entered none of higher rank. -/
def Stage.rank : Stage → Nat
  | .memberTurn | .pathTurn => 0
  | .memberPath | .path => 1
  | .lambda => 2
  | .call => 3
  | .primary => 4
  | .operand => 5
  | .operatorTurn strength => 16 - 2 * strength
  | .operators strength => 17 - 2 * strength
  | .expression => 16
  | .commaTurn => 17
  | .commaList => 18
  | .arguments => 19
  | .value => 20
  | .optionTurn => 21
  | .optionList => 22

/-- Every stage is further out than a rank. -/
def Above (bound : Nat) (pending : List Stage) : Prop :=
  ∀ stage ∈ pending, bound < stage.rank

/-- Every stage is further in than a rank. -/
def Below (bound : Nat) (pending : List Stage) : Prop :=
  ∀ stage ∈ pending, stage.rank < bound

section Ranks

variable {bound higher : Nat} {pending : List Stage} {stage : Stage}

theorem above_nil (bound : Nat) : Above bound [] := nofun

theorem below_nil (bound : Nat) : Below bound [] := nofun

theorem Above.not_mem (stage : Stage) (h : Above stage.rank pending) : stage ∉ pending :=
  fun hmem => Nat.lt_irrefl _ (h stage hmem)

theorem Below.not_mem (stage : Stage) (h : Below stage.rank pending) : stage ∉ pending :=
  fun hmem => Nat.lt_irrefl _ (h stage hmem)

theorem Above.mono (h : Above higher pending) (hle : bound ≤ higher) : Above bound pending :=
  fun stage hmem => Nat.lt_of_le_of_lt hle (h stage hmem)

theorem Below.mono (h : Below bound pending) (hle : bound ≤ higher) : Below higher pending :=
  fun stage hmem => Nat.lt_of_lt_of_le (h stage hmem) hle

theorem Above.cons (h : Above bound pending) (hstage : bound < stage.rank) :
    Above bound (stage :: pending) :=
  List.forall_mem_cons.mpr ⟨hstage, h⟩

theorem Below.cons (h : Below bound pending) (hstage : stage.rank < bound) :
    Below bound (stage :: pending) :=
  List.forall_mem_cons.mpr ⟨hstage, h⟩

end Ranks

/-- A value that is read, with a run at rest before what is left of the text. Since the last token it only
entered stages further in than a rank. -/
def Rests (input : Input) (bound : Nat) {α : Type} (read : α × Text) (value : α) (s : State) : Prop :=
  value = read.1 ∧ ∃ pending, Below bound pending ∧ Settled input read.2 pending s

/-- A run that tracks a reader, with a rank that is the reader's place in the grammar. -/
structure Tracks (input : Input) (bound : Nat) {α : Type} (reader : Reader α) (run : Run α) : Prop where
  /-- The run reads what the reader reads, if since the last token it only entered stages further out. Then
  there are only stages further in. -/
  agrees : ∀ {text : Text} {pending : List Stage} {s : State}, Settled input text pending s →
    Above bound pending → Agrees input (Rests input bound) (reader text) (run.exec s)
  anchored : ∀ {source : Text}, AnchoredReader source reader

section Tracking

variable {input : Input} {bound higher : Nat} {α : Type} {text rest : Text} {pending : List Stage}
  {s : State} {value : α}

theorem Rests.mono {read : α × Text} (h : Rests input bound read value s) (hle : bound ≤ higher) :
    Rests input higher read value s := by
  obtain ⟨hvalue, pending, hbelow, hs⟩ := h
  exact ⟨hvalue, pending, hbelow.mono hle, hs⟩

theorem Agrees.outward {read : Except Fault (α × Text)} {run : Run α}
    (h : Agrees input (Rests input bound) read (run.exec s)) (hle : bound ≤ higher) :
    Agrees input (Rests input higher) read (run.exec s) :=
  h.imp fun _ _ _ _ hrests => hrests.mono hle

/-- What is built from a value that is read. -/
theorem Agrees.build {β : Type} (build : α → β) {read : Except Fault (α × Text)} {run : Run α}
    (h : Agrees input (Rests input bound) read (run.exec s)) :
    Agrees input (Rests input bound) (read.map fun (value, rest) => (build value, rest))
      ((run >>= fun value => pure (build value)).exec s) := by
  refine h.map fun read value s' _ hrests => ?_
  obtain ⟨rfl, hrests⟩ := hrests
  exact ⟨rfl, hrests⟩

theorem Tracks.mono {reader : Reader α} {run : Run α} (h : Tracks input bound reader run)
    (hle : bound ≤ higher) : Tracks input higher reader run where
  agrees hs habove := (h.agrees hs (habove.mono hle)).outward hle
  anchored := h.anchored

/-- After a token that is taken, no stage is entered yet. -/
theorem Settled.rests (h : Settled input rest [] s) (bound : Nat) (value : α) :
    Rests input bound (value, rest) value s :=
  ⟨rfl, [], below_nil bound, h⟩

theorem Looked.rests {count : Nat} (h : Looked input rest count [] s) (hcount : count ≤ 1) (bound : Nat)
    (value : α) : Rests input bound (value, rest) value s :=
  (h.settled hcount).rests bound value

theorem Looked.enter {count : Nat} {stage : Stage} (h : Looked input text count pending s)
    (hstage : stage ∉ pending) :
    ∃ s', (Run.enter stage).exec s = (.ok (), s') ∧ Looked input text count (stage :: pending) s' := by
  refine ⟨_, rfl, h.suffix, ⟨?_, h.lawful⟩, h.current, ?_, h.waits⟩
  · show stage ∉ s.journal.pending
    rwa [h.pending]
  · show stage :: s.journal.pending = stage :: pending
    rw [h.pending]

/-- A stage may be entered if it was not since the last token. -/
theorem Settled.enter {stage : Stage} (h : Settled input text pending s) (hstage : stage ∉ pending) :
    ∃ s', (Run.enter stage).exec s = (.ok (), s') ∧ Settled input text (stage :: pending) s' := by
  obtain ⟨count, hlooked, hcount⟩ := h
  obtain ⟨s', henter, hs'⟩ := hlooked.enter hstage
  exact ⟨s', henter, count, hs', hcount⟩

theorem Settled.suffix (h : Settled input text pending s) : text <:+ input.source := by
  obtain ⟨count, hlooked, -⟩ := h
  exact hlooked.suffix

theorem Settled.lawful (h : Settled input text pending s) : s.journal.Lawful input.source := by
  obtain ⟨count, hlooked, -⟩ := h
  exact hlooked.lawful

/-- A reader of the ends of every source leaves no more than there was. -/
theorem length_le_of_anchored {reader : Reader α} (h : ∀ {source}, AnchoredReader source reader)
    (hread : reader text = .ok (value, rest)) : rest.length ≤ text.length := by
  have hleaves := h (List.suffix_refl text)
  rw [hread] at hleaves
  exact List.IsSuffix.length_le hleaves

/-- What stands behind the slash that a member path goes on with. It ends before a slash that a name of the
protocol follows. -/
def memberAfter? (text : Text) : Except Fault (Option Text) := do
  match ← symbol? .slash text with
  | none => .ok none
  | some after =>
    match ← Lexeme.next? after with
    | some ⟨.name name, _, _⟩ => .ok (if name.head? = some '$' then none else some after)
    | _ => .ok none

theorem symbol?_of_memberAfter? {after : Text} (h : memberAfter? text = .ok (some after)) :
    symbol? .slash text = .ok (some after) := by
  rw [memberAfter?] at h
  obtain ⟨slash, hslash, h⟩ := bind_eq_ok.mp h
  cases slash with
  | none => cases h
  | some found =>
      obtain ⟨next, -, h⟩ := bind_eq_ok.mp h
      split at h
      · split at h
        · cases h
        · cases h
          exact hslash
      · cases h

/-- Enough fuel for a text looks for a slash behind every name. -/
theorem memberNames_eq {fuel : Nat} (h : text.length ≤ fuel) :
    memberNames fuel text = (do
      let (member, start, rest) ← name .propertyName text
      checkMember member start
      match ← memberAfter? rest with
      | none => .ok ([member], rest)
      | some after =>
        let (members, rest) ← memberNames (fuel - 1) after
        .ok (member :: members, rest)) := by
  cases fuel with
  | zero =>
      rw [List.eq_nil_of_length_eq_zero (Nat.le_zero.mp h), memberNames.eq_def]
      rfl
  | succ fuel =>
      rw [memberNames]
      refine bind_congr fun named => ?_
      obtain ⟨member, start, rest⟩ := named
      refine bind_congr fun _ => ?_
      rw [memberAfter?]
      cases symbol? .slash rest with
      | error fault => rfl
      | ok slash =>
          cases slash with
          | none => rfl
          | some after =>
              show (Lexeme.next? after >>= _) = (Lexeme.next? after >>= _) >>= _
              cases Lexeme.next? after with
              | error fault => rfl
              | ok next =>
                  rcases next with _ | ⟨word | value | mark, start', rest'⟩
                  · rfl
                  · dsimp only [ok_bind]
                    split <;> rfl
                  · rfl
                  · rfl

end Tracking

namespace Run

variable {input : Input} {α : Type} {text : Text} {pending : List Stage} {s : State}

/-! ### Lists and member paths -/

theorem agrees_moreItems {item : Reader α} {run : Run α} (hitem : Tracks input 17 item run)
    {fuel turns : Nat} (hfuel : text.length ≤ fuel) (hturns : text.length < turns)
    (h : Settled input text pending s) (hpending : Below 17 pending) :
    Agrees input (Rests input 18) (Reader.moreItems item fuel text)
      ((moreItems input run turns).exec s) := by
  induction turns generalizing fuel text pending s with
  | zero => exact absurd hturns (Nat.not_lt_zero _)
  | succ turns ih =>
      obtain ⟨s', henter, hs'⟩ := h.enter (Below.not_mem .commaTurn hpending)
      rw [Grammar.moreItems_eq hfuel, moreItems, bind_ok henter]
      refine (hs'.agrees_eat (by decide)).bind fun comma eaten s' hcomma heaten => ?_
      cases heaten with
      | left hs' => exact ⟨rfl, _, (hpending.mono (by decide)).cons (by decide), hs'⟩
      | taken hs' =>
          have hagrees := hitem.agrees (hs'.settled (by decide)) (above_nil 17)
          refine hagrees.bind fun read value s' hread hrests => ?_
          obtain ⟨rfl, pending, hpending, hs'⟩ := hrests
          have hlt := length_lt_of_symbol? hcomma
          have hle := length_le_of_anchored hitem.anchored hread
          refine (ih (by omega) (by omega) hs' hpending).bind fun reads values s' _ hrests => ?_
          obtain ⟨rfl, hrests⟩ := hrests
          exact ⟨rfl, hrests⟩

theorem tracks_commaList {item : Reader α} {run : Run α} (hitem : Tracks input 17 item run)
    (hturns : input.source.length < input.turns) :
    Tracks input 18 (Reader.commaList item) (commaList input run) where
  agrees := by
    intro text pending s h habove
    obtain ⟨s', henter, hs'⟩ := h.enter (Above.not_mem .commaList habove)
    rw [Reader.commaList, commaList, bind_ok henter]
    have hinward : Above 17 (.commaList :: pending) := (habove.mono (by decide)).cons (by decide)
    refine (hitem.agrees hs' hinward).bind fun read value s' _ hrests => ?_
    obtain ⟨rfl, pending, hpending, hs'⟩ := hrests
    have hlength := Nat.lt_of_le_of_lt hs'.suffix.length_le hturns
    refine (agrees_moreItems hitem (Nat.le_refl _) hlength hs' hpending).bind
      fun reads values s' _ hrests => ?_
    obtain ⟨rfl, hrests⟩ := hrests
    exact ⟨rfl, hrests⟩
  anchored := anchored_commaList hitem.anchored

theorem agrees_checkMember (h : s.journal.Lawful input.source) (name start : Text) :
    Agrees input (fun _ _ s' => s' = s) (Reader.checkMember name start)
      ((checkMember input name (offsetOf input.source start)).exec s) := by
  rw [Reader.checkMember, checkMember]
  split
  · exact agrees_reject h _ _ _
  split
  · exact agrees_reject h _ _ _
  · rfl

/-- A look at whether a member path goes on. -/
theorem agrees_continuesPath (h : Settled input text pending s) :
    Agrees input (fun after is s' => is = after.isSome ∧ Settled input text pending s')
      (memberAfter? text) ((continuesPath input).exec s) := by
  rw [memberAfter?, continuesPath]
  refine (h.agrees_peekSymbol .slash).bind fun slash is s' hslash hpeek => ?_
  obtain ⟨rfl, hs'⟩ := hpeek
  cases slash with
  | none => exact ⟨rfl, hs'⟩
  | some after =>
      obtain ⟨count, hcount, hlooked⟩ := hs'.exists_looked
      rw [Option.isSome_some, if_pos rfl]
      refine (hlooked.agrees_peek (lookAt_slash hslash)).bind fun next token s' _ hpeek => ?_
      obtain ⟨rfl, hs'⟩ := hpeek
      rw [max_eq_right (show count ≤ 1 + 1 from hcount)] at hs'
      have hsettled : Settled input text pending s' := ⟨2, hs', Or.inr ⟨rfl, after, hslash⟩⟩
      rcases next with _ | ⟨word | value | mark, start, rest⟩
      · exact ⟨rfl, hsettled⟩
      · refine ⟨?_, hsettled⟩
        by_cases hprotocol : word.head? = some '$' <;> simp [hprotocol]
      · exact ⟨rfl, hsettled⟩
      · exact ⟨rfl, hsettled⟩

theorem agrees_memberNames {fuel turns : Nat} (hfuel : text.length ≤ fuel) (hturns : text.length < turns)
    (h : Settled input text pending s) (hpending : Stage.memberTurn ∉ pending) :
    Agrees input (Rests input 0) (Reader.memberNames fuel text) ((memberNames input turns).exec s) := by
  induction turns generalizing fuel text pending s with
  | zero => exact absurd hturns (Nat.not_lt_zero _)
  | succ turns ih =>
      obtain ⟨s', henter, hs'⟩ := h.enter hpending
      rw [memberNames_eq hfuel, memberNames, bind_ok henter]
      refine (hs'.agrees_expectName _).bind fun name found s' hname hfound => ?_
      obtain ⟨member, start, rest⟩ := name
      obtain ⟨rfl, hs'⟩ := hfound
      refine (agrees_checkMember hs'.lawful member start).bind fun _ _ _ _ heq => ?_
      subst heq
      refine (agrees_continuesPath (hs'.settled (by decide))).bind fun next is s' hnext hcontinues => ?_
      obtain ⟨rfl, hs'⟩ := hcontinues
      cases next with
      | none => exact hs'.rests 0 [member]
      | some after =>
          have hslash := symbol?_of_memberAfter? hnext
          obtain ⟨_, hnextSlash⟩ := next?_of_symbol? hslash
          obtain ⟨count, hcount, hlooked⟩ := hs'.exists_looked
          obtain ⟨s'', hadvance, hs''⟩ := hlooked.advance_eq hnextSlash
          have hlt := Lexeme.length_lt_of_next? (next?_of_name hname)
          have hlt' := length_lt_of_symbol? hslash
          dsimp only at hlt hlt' hs''
          rw [Option.isSome_some, if_pos rfl, bind_ok hadvance]
          refine (ih (by omega) (by omega) (hs''.settled (by omega)) List.not_mem_nil).bind
            fun reads names s' _ hrests => ?_
          obtain ⟨rfl, hrests⟩ := hrests
          exact ⟨rfl, hrests⟩

theorem tracks_memberPath (hturns : input.source.length < input.turns) :
    Tracks input 1 Reader.memberPath (memberPath input) where
  agrees := by
    intro text pending s h habove
    obtain ⟨s', henter, hs'⟩ := h.enter (Above.not_mem .memberPath habove)
    have hinward : Above 0 (.memberPath :: pending) := (habove.mono (by decide)).cons (by decide)
    have hlength := Nat.lt_of_le_of_lt h.suffix.length_le hturns
    rw [Reader.memberPath, memberPath, bind_ok henter]
    refine (agrees_memberNames (Nat.le_refl _) hlength hs' (Above.not_mem .memberTurn hinward)).bind
      fun reads names s' _ hrests => ?_
    obtain ⟨rfl, pending, hpending, hs'⟩ := hrests
    exact ⟨rfl, pending, hpending.mono (by decide), hs'⟩
  anchored := anchored_memberPath

/-! ### Operators between operands -/

theorem agrees_peekOperator (h : Settled input text pending s) (operators : List BinaryOperator) :
    Agrees input (fun found op s' => op = found.map Prod.fst ∧ Settled input text pending s')
      (Grammar.operator? operators text) ((peekOperator input operators).exec s) := by
  rw [Grammar.operator?, peekOperator]
  refine h.agrees_peek.bind fun next token s' _ hpeek => ?_
  obtain ⟨rfl, hs'⟩ := hpeek
  rcases next with _ | ⟨word | value | mark, start, rest⟩
  · exact ⟨rfl, hs'⟩
  · refine ⟨?_, hs'⟩
    cases operators.find? fun op => op.keyword = word <;> rfl
  · exact ⟨rfl, hs'⟩
  · exact ⟨rfl, hs'⟩

section Operators

variable (operators : List BinaryOperator) {strength : Nat} (hstrength : strength ≤ 5)
  {operand : Reader Expression} {run : Run Expression}
  (hoperand : Tracks input (15 - 2 * strength) operand run)

include hstrength hoperand

theorem agrees_moreOperands {fuel turns : Nat} {left : Expression} (hfuel : text.length ≤ fuel)
    (hturns : text.length < turns) (h : Settled input text pending s)
    (hpending : Below (16 - 2 * strength) pending) :
    Agrees input (Rests input (17 - 2 * strength)) (Grammar.moreOperands operators operand fuel left text)
      ((moreOperands input operators strength run turns left).exec s) := by
  induction turns generalizing fuel left text pending s with
  | zero => exact absurd hturns (Nat.not_lt_zero _)
  | succ turns ih =>
      obtain ⟨s', henter, hs'⟩ := h.enter (Below.not_mem (.operatorTurn strength) hpending)
      rw [Grammar.moreOperands_eq hfuel, moreOperands, bind_ok henter]
      refine (agrees_peekOperator hs' operators).bind fun found op s' hfound hpeek => ?_
      obtain ⟨rfl, hs'⟩ := hpeek
      cases found with
      | none =>
          have hturn : (Stage.operatorTurn strength).rank < 17 - 2 * strength := by
            show 16 - 2 * strength < _
            omega
          exact ⟨rfl, _, (hpending.mono (by omega)).cons hturn, hs'⟩
      | some found =>
          obtain ⟨op, rest⟩ := found
          obtain ⟨-, start, hnext⟩ := Grammar.operator?_eq_some hfound
          obtain ⟨s'', hadvance, hs''⟩ := hs'.advance_eq hnext nofun
          dsimp only [Option.map_some]
          rw [bind_ok hadvance]
          refine (hoperand.agrees (hs''.settled (by decide)) (above_nil _)).bind
            fun read right s' hread hrests => ?_
          obtain ⟨rfl, pending, hpending, hs'⟩ := hrests
          have hlt := Lexeme.length_lt_of_next? hnext
          have hle := length_le_of_anchored hoperand.anchored hread
          exact ih (by omega) (by omega) hs' (hpending.mono (by omega))

theorem tracks_leftAssociated (hturns : input.source.length < input.turns) :
    Tracks input (17 - 2 * strength) (Grammar.leftAssociated operators operand)
      (leftAssociated input operators strength run) where
  agrees := by
    intro text pending s h habove
    obtain ⟨s', henter, hs'⟩ := h.enter (Above.not_mem (.operators strength) habove)
    rw [Grammar.leftAssociated, leftAssociated, bind_ok henter]
    have hrank : 15 - 2 * strength < 17 - 2 * strength := by omega
    have hinward : Above (15 - 2 * strength) (.operators strength :: pending) :=
      (habove.mono hrank.le).cons hrank
    refine (hoperand.agrees hs' hinward).bind fun read left s' _ hrests => ?_
    obtain ⟨rfl, pending, hpending, hs'⟩ := hrests
    have hlength := Nat.lt_of_le_of_lt hs'.suffix.length_le hturns
    exact agrees_moreOperands operators hstrength hoperand (Nat.le_refl _) hlength hs'
      (hpending.mono (by omega))
  anchored := Grammar.anchored_leftAssociated hoperand.anchored operators

end Operators

end Run

end Cursor

end ODataRequest
