import ODataRequest.Path.Key
import ODataRequest.Proofs.Literal.NormalForm
import ODataRequest.Proofs.Query.Readers

/-! Keys between parentheses. A literal is written with a few bare characters, possibly before quoted
text, so that neither a comma nor an equals sign stands in it outside quotes. A key that was read is
written as a text that is read as the same key. -/

namespace ODataRequest

open Text Unicode Nesting

/-! ### The texts of literals -/

/-- A character that a literal is written with outside of quotes. -/
def isBareChar (c : Char) : Bool :=
  Lexeme.isNameContinue c || c = '-' || c = '+'

/-- The texts of bare characters, or of bare characters and quoted text. -/
inductive LiteralText : Text → Prop where
  | bare {text : Text} (hnonempty : text ≠ []) (h : text.all isBareChar = true) : LiteralText text
  | quoted {text : Text} (h : text.all isBareChar = true) (value : Text) :
      LiteralText (text ++ Text.quoted value)

theorem isBareChar_of_isNameContinue {c : Char} (h : Lexeme.isNameContinue c = true) :
    isBareChar c = true := by
  rw [isBareChar, h]
  rfl

theorem ne_of_isBareChar {c mark : Char} (h : isBareChar c = true)
    (hmark : isBareChar mark = false := by decide) : c ≠ mark := by
  rintro rfl
  rw [h] at hmark
  cases hmark

theorem not_blank_of_isBareChar {c : Char} (h : isBareChar c = true) : isWhiteSpace c = false := by
  rw [isBareChar, Bool.or_eq_true, Bool.or_eq_true, decide_eq_true_eq, decide_eq_true_eq] at h
  rcases h with (hname | rfl) | rfl
  · exact Lexeme.not_blank_of_isNameContinue hname
  · decide
  · decide

theorem bare_of_written {text : Text} (h : Number.Written text) : text.all isBareChar = true := by
  rw [List.all_eq_true]
  intro c hc
  rcases Number.mem_of_written h hc with hdigit | rfl | rfl | rfl | rfl | rfl
  · exact isBareChar_of_isNameContinue (Lexeme.isNameContinue_of_isDigit hdigit)
  all_goals decide

theorem bare_of_isGuid {text : Text} (h : isGuid text = true) : text.all isBareChar = true := by
  rw [List.all_eq_true]
  intro c hc
  rcases mem_of_isGuid h hc with hhex | rfl
  · exact isBareChar_of_isNameContinue (Lexeme.isNameContinue_of_isHexDigit hhex)
  · decide

theorem bare_of_isIdentifier {text : Text} (h : isIdentifier text = true) :
    text ≠ [] ∧ text.all isBareChar = true := by
  cases text with
  | nil => cases h
  | cons c rest =>
      rw [isIdentifier, Bool.and_eq_true, List.all_eq_true] at h
      refine ⟨List.cons_ne_nil c rest, List.all_eq_true.mpr fun d hd => ?_⟩
      rcases List.mem_cons.mp hd with rfl | hd
      · exact isBareChar_of_isNameContinue (Lexeme.isNameContinue_of_isStart h.1)
      · exact isBareChar_of_isNameContinue (Lexeme.isNameContinue_of_isContinue (h.2 d hd))

/-- The texts of a literal are those that are skipped as such. -/
theorem Literal.WrittenAs.literalText {text : Text} {value : Literal} (h : value.WrittenAs text) :
    LiteralText text := by
  cases h with
  | null => exact .bare (by decide) (by decide)
  | yes => exact .bare (by decide) (by decide)
  | no => exact .bare (by decide) (by decide)
  | number h =>
      obtain ⟨-, c, others, hcons, -⟩ := Number.head_of_written h
      exact .bare (hcons ▸ List.cons_ne_nil c others) (bare_of_written h)
  | string inner =>
      have hquoted : LiteralText ([] ++ quoted inner) := .quoted rfl inner
      exact hquoted
  | guid h =>
      obtain ⟨c, others, hcons, -⟩ := head_of_isGuid h
      exact .bare (hcons ▸ List.cons_ne_nil c others) (bare_of_isGuid h)
  | enumeration h inner =>
      refine .quoted (List.all_eq_true.mpr fun c hc => ?_) inner
      exact isBareChar_of_isNameContinue (Literal.mem_of_isQualifiedName h hc)

theorem Literal.literalText {value : Literal} (h : value.WellFormed) : LiteralText value.render :=
  (writtenAs_render h).literalText

namespace LiteralText

variable {text : Text}

theorem ne_nil (h : LiteralText text) : text ≠ [] := by
  cases h with
  | bare hnonempty _ => exact hnonempty
  | quoted h value => simp [Text.quoted]

/-- No blank stands at either end. -/
theorem trim_eq_self (h : LiteralText text) : text.trim = text := by
  have hblank : ∀ {bare : Text}, bare.all isBareChar = true → ∀ c ∈ bare, isWhiteSpace c = false :=
    fun hbare c hc => not_blank_of_isBareChar (List.all_eq_true.mp hbare c hc)
  cases h with
  | bare _ h =>
      refine trim_of_ends ?_ ?_
      · cases hhead : text.head? with
        | none => rfl
        | some c => exact hblank h c (List.mem_of_head? hhead)
      · cases hlast : text.getLast? with
        | none => rfl
        | some c => exact hblank h c (List.mem_of_getLast? hlast)
  | quoted h value =>
      rename_i bare
      refine trim_of_ends ?_ ?_
      · cases bare with
        | nil => rfl
        | cons c bare => exact hblank h c List.mem_cons_self
      · have hlast : (bare ++ Text.quoted value).getLast? = some quoteMark := by
          rw [Text.quoted, ← List.append_assoc, List.getLast?_concat]
        rw [hlast]
        rfl

/-- Scanners pass over a literal, if nothing bare separates. -/
theorem closed (h : LiteralText text) {cuts : Char → Bool}
    (hcuts : ∀ c, isBareChar c = true → cuts c = false) : Closed cuts text := by
  have hplain : ∀ {bare : Text}, bare.all isBareChar = true → Closed cuts bare := by
    intro bare hbare
    refine Closed.plain (List.all_eq_true.mpr fun c hc => ?_)
    have hc' := List.all_eq_true.mp hbare c hc
    have hquote : c ≠ quoteMark := ne_of_isBareChar hc'
    have hopen : c ≠ '(' := ne_of_isBareChar hc'
    have hclose : c ≠ ')' := ne_of_isBareChar hc'
    simp [isPlain, hquote, hopen, hclose, hcuts c hc']
  cases h with
  | bare _ h => exact hplain h
  | quoted h value => exact (hplain h).append (Closed.quoted value)

end LiteralText

/-! ### Scanning for commas and equals signs -/

namespace KeyPredicate

/-- A text in which neither scan stops, with the quote flags before and behind it. -/
structure Skips (separator : Char) (before behind : Bool) (text : Text) : Prop where
  cut : ∀ rest, cutOutsideQuotes? separator before (text ++ rest) =
    (cutOutsideQuotes? separator behind rest).map fun parts => (text ++ parts.1, parts.2)
  fields : ∀ rest, fieldsOutsideQuotes separator before (text ++ rest) =
    (fieldsOutsideQuotes separator behind rest).modifyHead (text ++ ·)

namespace Skips

variable {separator : Char} {before middle behind : Bool} {left right text : Text}

theorem nil : Skips separator before before [] where
  cut := fun rest => by
    have hid : (fun parts : Text × Text => ([] ++ parts.1, parts.2)) = id := rfl
    rw [hid, Option.map_id]
    rfl
  fields := fun rest => by
    cases hfields : fieldsOutsideQuotes separator before rest <;>
      simp [hfields]

theorem append (hleft : Skips separator before middle left) (hright : Skips separator middle behind right) :
    Skips separator before behind (left ++ right) where
  cut := fun rest => by
    rw [List.append_assoc, hleft.cut, hright.cut, Option.map_map]
    simp only [Function.comp_def, List.append_assoc]
  fields := fun rest => by
    rw [List.append_assoc, hleft.fields, hright.fields, List.modifyHead_modifyHead]
    simp only [Function.comp_def, List.append_assoc]

theorem char {c : Char} (h : c = separator → before = true) :
    Skips separator before (before ^^ c == quoteMark) [c] := by
  have hstop : ¬(decide (c = separator) && !before) = true := by
    rw [Bool.and_eq_true, decide_eq_true_eq]
    rintro ⟨hc, hbefore⟩
    rw [h hc] at hbefore
    cases hbefore
  constructor
  · intro rest
    rw [List.singleton_append, cutOutsideQuotes?, if_neg hstop]
    rfl
  · intro rest
    rw [List.singleton_append, fieldsOutsideQuotes, if_neg hstop]
    rfl

/-- A character that is neither the separator nor a quote. -/
theorem plain {c : Char} (hseparator : c ≠ separator) (hquote : c ≠ quoteMark) :
    Skips separator before before [c] := by
  have hskips : Skips separator before (before ^^ c == quoteMark) [c] :=
    char fun hc => absurd hc hseparator
  rwa [beq_eq_false_iff_ne.mpr hquote, Bool.xor_false] at hskips

theorem blank (hseparator : isWhiteSpace separator = false) (h : text.all isWhiteSpace = true) :
    Skips separator before before text := by
  have hne : ∀ {c mark : Char}, isWhiteSpace c = true → isWhiteSpace mark = false → c ≠ mark := by
    rintro c mark hc hmark rfl
    rw [hc] at hmark
    cases hmark
  induction text with
  | nil => exact nil
  | cons c text ih =>
      rw [List.all_cons, Bool.and_eq_true] at h
      exact append (plain (hne h.1 hseparator) (hne h.1 (by decide))) (ih h.2)

theorem bare (hseparator : isBareChar separator = false) (h : text.all isBareChar = true) :
    Skips separator before before text := by
  induction text with
  | nil => exact nil
  | cons c text ih =>
      rw [List.all_cons, Bool.and_eq_true] at h
      exact append (plain (ne_of_isBareChar h.1 hseparator) (ne_of_isBareChar h.1)) (ih h.2)

theorem quote (hseparator : separator ≠ quoteMark) (before : Bool) :
    Skips separator before (!before) [quoteMark] := by
  have hskips : Skips separator before (before ^^ quoteMark == quoteMark) [quoteMark] :=
    char fun hc => absurd hc.symm hseparator
  rwa [beq_self_eq_true, Bool.xor_true] at hskips

theorem doubleQuotes (hseparator : separator ≠ quoteMark) (value : Text) :
    Skips separator true true (doubleQuotes value) := by
  induction value with
  | nil => exact nil
  | cons c value ih =>
      by_cases hc : c = quoteMark
      · rw [Text.doubleQuotes, if_pos hc, hc]
        exact (quote hseparator true).append ((quote hseparator false).append ih)
      · rw [Text.doubleQuotes, if_neg hc]
        have hskips : Skips separator true (true ^^ c == quoteMark) [c] := char fun _ => rfl
        rw [beq_eq_false_iff_ne.mpr hc] at hskips
        exact hskips.append ih

theorem quoted (hseparator : separator ≠ quoteMark) (value : Text) :
    Skips separator false false (quoted value) := by
  have hskips := (quote hseparator false).append
    ((doubleQuotes hseparator value).append (quote hseparator true))
  exact hskips

theorem literal (hseparator : isBareChar separator = false ∧ separator ≠ quoteMark)
    (h : LiteralText text) : Skips separator false false text := by
  cases h with
  | bare _ h => exact bare hseparator.1 h
  | quoted h value => exact (bare hseparator.1 h).append (quoted hseparator.2 value)

/-! What the scans find behind a text that they skip. -/

theorem fields_nil (h : Skips separator before behind text) :
    fieldsOutsideQuotes separator before text = [text] := by
  have hfields := h.fields []
  rwa [List.append_nil, fieldsOutsideQuotes, List.modifyHead_cons, List.append_nil] at hfields

theorem fields_separator (h : Skips separator before false text) (rest : Text) :
    fieldsOutsideQuotes separator before (text ++ separator :: rest) =
      text :: fieldsOutsideQuotes separator false rest := by
  rw [h.fields, fieldsOutsideQuotes, if_pos (by simp), List.modifyHead_cons, List.append_nil]

theorem cut_nil (h : Skips separator before behind text) :
    cutOutsideQuotes? separator before text = none := by
  have hcut := h.cut []
  rwa [List.append_nil, cutOutsideQuotes?, Option.map_none] at hcut

theorem cut_separator (h : Skips separator before false text) (rest : Text) :
    cutOutsideQuotes? separator before (text ++ separator :: rest) = some (text, rest) := by
  rw [h.cut, cutOutsideQuotes?, if_pos (by simp), Option.map_some, List.append_nil]

end Skips

/-! ### Keys that are read -/

/-- A key of well-formed literals; every name of a named key is an identifier. -/
def WellFormed : KeyPredicate → Prop
  | .single value => value.WellFormed
  | .named pairs => pairs ≠ [] ∧ ∀ pair ∈ pairs, isIdentifier pair.1 = true ∧ pair.2.WellFormed

variable {text part inner : Text} {value : Literal}

theorem keyValue_eq_ok_iff : keyValue text = .ok value ↔ value.WrittenAs text.trim := by
  rw [← Literal.ofText?_eq_some_iff, keyValue]
  cases Literal.ofText? text.trim with
  | none => simp
  | some found => simp

theorem spec_of_keyPair {pair : Text × Literal} (h : keyPair part = .ok pair) :
    isIdentifier pair.1 = true ∧ pair.2.WellFormed := by
  rw [keyPair] at h
  split at h
  · cases h
  split at h
  · cases h
  rename_i hname
  rw [Bool.not_eq_true, Bool.not_eq_false'] at hname
  rename_i name text _
  cases hvalue : keyValue text with
  | error e =>
      rw [hvalue] at h
      cases h
  | ok value =>
      rw [hvalue] at h
      cases h
      exact ⟨hname, (keyValue_eq_ok_iff.mp hvalue).wellFormed⟩

theorem spec_of_keyPairs {parts : List Text} {pairs : List (Text × Literal)}
    (h : keyPairs parts = .ok pairs) : pairs.length = parts.length ∧
      ∀ pair ∈ pairs, isIdentifier pair.1 = true ∧ pair.2.WellFormed := by
  induction parts generalizing pairs with
  | nil =>
      cases h
      exact ⟨rfl, by simp⟩
  | cons part parts ih =>
      obtain ⟨pair, hpair, h⟩ := bind_eq_ok.mp h
      obtain ⟨others, hothers, h⟩ := bind_eq_ok.mp h
      cases h
      obtain ⟨hlength, hall⟩ := ih hothers
      rw [List.length_cons, List.length_cons, hlength]
      exact ⟨rfl, List.forall_mem_cons.mpr ⟨spec_of_keyPair hpair, hall⟩⟩

theorem fieldsOutsideQuotes_ne_nil {separator : Char} (inQuotes : Bool) (text : Text) :
    fieldsOutsideQuotes separator inQuotes text ≠ [] := by
  induction text generalizing inQuotes with
  | nil => exact List.cons_ne_nil _ _
  | cons c text ih =>
      rw [fieldsOutsideQuotes]
      split
      · exact List.cons_ne_nil _ _
      · rw [ne_eq, List.modifyHead_eq_nil_iff]
        exact ih _

theorem eq_of_fieldsOutsideQuotes {separator : Char} {inQuotes : Bool}
    (h : fieldsOutsideQuotes separator inQuotes text = [part]) : part = text := by
  induction text generalizing inQuotes part with
  | nil =>
      cases h
      rfl
  | cons c text ih =>
      rw [fieldsOutsideQuotes] at h
      split at h
      · exact absurd (List.cons.inj h).2 (fieldsOutsideQuotes_ne_nil inQuotes text)
      · cases hfields : fieldsOutsideQuotes separator (inQuotes ^^ c == quoteMark) text with
        | nil => exact absurd hfields (fieldsOutsideQuotes_ne_nil _ text)
        | cons first others =>
            rw [hfields, List.modifyHead_cons] at h
            obtain ⟨rfl, rfl⟩ := List.cons.inj h
            rw [ih hfields]

/-- What is read as a key: the one literal of the text, or the pairs between its commas. -/
theorem read_cases {key : KeyPredicate} (h : read inner = .ok key) :
    (∃ value, key = .single value ∧ value.WrittenAs inner.trim) ∨
      ∃ pairs, key = .named pairs ∧ keyPairs (fieldsOutsideQuotes ',' false inner) = .ok pairs := by
  rw [read] at h
  split at h
  · cases h
  dsimp only at h
  split at h
  · obtain ⟨pairs, hpairs, rfl⟩ := map_eq_ok h
    exact Or.inr ⟨pairs, rfl, hpairs⟩
  split at h
  · rename_i part hfields
    obtain ⟨value, hvalue, rfl⟩ := map_eq_ok h
    rw [eq_of_fieldsOutsideQuotes hfields] at hvalue
    exact Or.inl ⟨value, rfl, keyValue_eq_ok_iff.mp hvalue⟩
  · cases h

/-- What is read as a key is well-formed. -/
theorem wellFormed_of_read {key : KeyPredicate} (h : read inner = .ok key) : key.WellFormed := by
  rcases read_cases h with ⟨value, rfl, hwritten⟩ | ⟨pairs, rfl, hpairs⟩
  · exact hwritten.wellFormed
  · obtain ⟨hlength, hall⟩ := spec_of_keyPairs hpairs
    refine ⟨?_, hall⟩
    rintro rfl
    exact fieldsOutsideQuotes_ne_nil false inner (List.eq_nil_of_length_eq_zero hlength.symm)

/-! ### Keys that are written out -/

/-- The text of a pair of a named key. -/
def pairText (pair : Text × Literal) : Text :=
  pair.1 ++ '=' :: pair.2.render

theorem keyValue_render (h : value.WellFormed) : keyValue value.render = .ok value := by
  rw [keyValue_eq_ok_iff, (Literal.literalText h).trim_eq_self]
  exact Literal.writtenAs_render h

theorem nameAndValue?_pairText {pair : Text × Literal} (h : isIdentifier pair.1 = true) :
    nameAndValue? (pairText pair) = some (pair.1, pair.2.render) :=
  (Skips.bare (by decide) (bare_of_isIdentifier h).2).cut_separator _

theorem keyPair_pairText {pair : Text × Literal} (h : isIdentifier pair.1 = true)
    (hvalue : pair.2.WellFormed) : keyPair (pairText pair) = .ok pair := by
  obtain ⟨hnonempty, hbare⟩ := bare_of_isIdentifier h
  rw [keyPair, nameAndValue?_pairText h]
  dsimp only
  rw [(LiteralText.bare hnonempty hbare).trim_eq_self, h, Bool.not_true, if_neg Bool.false_ne_true,
    keyValue_render hvalue]
  rfl

theorem keyPairs_pairText {pairs : List (Text × Literal)}
    (h : ∀ pair ∈ pairs, isIdentifier pair.1 = true ∧ pair.2.WellFormed) :
    keyPairs (pairs.map pairText) = .ok pairs := by
  induction pairs with
  | nil => rfl
  | cons pair pairs ih =>
      obtain ⟨hpair, hpairs⟩ := List.forall_mem_cons.mp h
      rw [List.map_cons, keyPairs, keyPair_pairText hpair.1 hpair.2, ih hpairs]
      rfl

theorem skips_pairText {pair : Text × Literal} (h : isIdentifier pair.1 = true)
    (hvalue : pair.2.WellFormed) : Skips ',' false false (pairText pair) := by
  have hname : Skips ',' false false pair.1 :=
    .bare (by decide) (bare_of_isIdentifier h).2
  have hequals : Skips ',' false false ['='] := .plain (by decide) (by decide)
  exact hname.append (hequals.append (.literal (by decide) (Literal.literalText hvalue)))

theorem fields_pairText {pairs : List (Text × Literal)} (hnonempty : pairs ≠ [])
    (h : ∀ pair ∈ pairs, isIdentifier pair.1 = true ∧ pair.2.WellFormed) :
    fieldsOutsideQuotes ',' false ([','].intercalate (pairs.map pairText)) = pairs.map pairText := by
  induction pairs with
  | nil => exact absurd rfl hnonempty
  | cons pair pairs ih =>
      obtain ⟨hpair, hpairs⟩ := List.forall_mem_cons.mp h
      have hskips := skips_pairText hpair.1 hpair.2
      cases pairs with
      | nil =>
          rw [List.map_singleton, List.intercalate_singleton]
          exact hskips.fields_nil
      | cons second pairs =>
          rw [List.map_cons, List.map_cons, List.intercalate_cons_cons, List.append_assoc,
            List.singleton_append, hskips.fields_separator, ← List.map_cons,
            ih (List.cons_ne_nil _ _) hpairs]

/-- One literal between blanks is read as an unnamed key. -/
theorem read_of_writtenAs {before after : Text} (h : value.WrittenAs text)
    (hbefore : before.all isWhiteSpace = true) (hafter : after.all isWhiteSpace = true) :
    read (before ++ text ++ after) = .ok (.single value) := by
  have htext := h.literalText
  have hskips : ∀ {separator : Char}, isBareChar separator = false → separator ≠ quoteMark →
      isWhiteSpace separator = false → Skips separator false false (before ++ text ++ after) :=
    fun hbare hquote hblank => ((Skips.blank hblank hbefore).append
      (.literal ⟨hbare, hquote⟩ htext)).append (.blank hblank hafter)
  have htrim := trim_between hbefore hafter htext.ne_nil htext.trim_eq_self
  have hempty : ¬(Text.trim (before ++ text ++ after)).isEmpty = true := by
    rw [htrim, List.isEmpty_iff]
    exact htext.ne_nil
  have hcut : nameAndValue? (before ++ text ++ after) = none :=
    (hskips (by decide) (by decide) (by decide)).cut_nil
  have hunnamed : ¬([before ++ text ++ after].any fun part => (nameAndValue? part).isSome) = true := by
    rw [List.any_cons, List.any_nil, hcut]
    exact Bool.false_ne_true
  have hvalue : keyValue (before ++ text ++ after) = .ok value := by
    rw [keyValue_eq_ok_iff, htrim]
    exact h
  rw [read, if_neg hempty]
  dsimp only
  rw [(hskips (by decide) (by decide) (by decide)).fields_nil, if_neg hunnamed]
  dsimp only
  rw [hvalue]
  rfl

theorem read_named {pairs : List (Text × Literal)} (hnonempty : pairs ≠ [])
    (h : ∀ pair ∈ pairs, isIdentifier pair.1 = true ∧ pair.2.WellFormed) :
    read ([','].intercalate (pairs.map pairText)) = .ok (.named pairs) := by
  have hfields := fields_pairText hnonempty h
  cases pairs with
  | nil => exact absurd rfl hnonempty
  | cons pair pairs =>
      have hpair := h pair List.mem_cons_self
      have hempty : ¬(Text.trim ([','].intercalate ((pair :: pairs).map pairText))).isEmpty = true := by
        obtain ⟨hname, hbare⟩ := bare_of_isIdentifier hpair.1
        obtain ⟨c, rest, hcons⟩ := List.exists_cons_of_ne_nil hname
        have hc : c ∈ pair.1 := by
          rw [hcons]
          exact List.mem_cons_self
        have hmem : c ∈ [','].intercalate ((pair :: pairs).map pairText) := by
          cases pairs with
          | nil => simp [pairText, hc]
          | cons second pairs => simp [pairText, hc]
        rw [List.isEmpty_iff]
        exact trim_ne_nil hmem (not_blank_of_isBareChar (List.all_eq_true.mp hbare c hc))
      have hnamed : (((pair :: pairs).map pairText).any fun part =>
          (nameAndValue? part).isSome) = true := by
        rw [List.map_cons, List.any_cons, nameAndValue?_pairText hpair.1]
        rfl
      rw [read, if_neg hempty]
      dsimp only
      rw [hfields, if_pos hnamed, keyPairs_pairText h]
      rfl

/-- The canonical text of a well-formed key is read as the key. -/
theorem read_render {key : KeyPredicate} (h : key.WellFormed) : read key.render = .ok key := by
  cases key with
  | single value =>
      have hread := @read_of_writtenAs _ _ [] [] (Literal.writtenAs_render h) rfl rfl
      rwa [List.nil_append, List.append_nil] at hread
  | named pairs => exact read_named h.1 h.2

/-- In parentheses, the text of a well-formed key is closed against any scanner that its marks mean
nothing to. -/
theorem closed_render {key : KeyPredicate} (h : key.WellFormed) {cuts : Char → Bool}
    (hcuts : ∀ c, isBareChar c = true → cuts c = false) :
    Closed cuts ('(' :: key.render ++ [')']) := by
  have hliteral : ∀ {value : Literal}, value.WellFormed → Inner cuts value.render :=
    fun hvalue => ((Literal.literalText hvalue).closed hcuts).inner
  apply Inner.parenthesized
  cases key with
  | single value => exact hliteral h
  | named pairs =>
      obtain ⟨-, hall⟩ := h
      have hpair : ∀ pair ∈ pairs, Inner cuts (pairText pair) := by
        intro pair hmem
        obtain ⟨hname, hvalue⟩ := hall pair hmem
        obtain ⟨hnonempty, hbare⟩ := bare_of_isIdentifier hname
        have hequals : Inner cuts ['='] := .singleton (by decide) (by decide) (by decide)
        exact ((LiteralText.bare hnonempty hbare).closed hcuts).inner.append
          (hequals.append (hliteral hvalue))
      show Inner cuts ([','].intercalate (pairs.map pairText))
      clear hall
      induction pairs with
      | nil => exact Closed.nil.inner
      | cons pair pairs ih =>
          obtain ⟨hfirst, hothers⟩ := List.forall_mem_cons.mp hpair
          cases pairs with
          | nil =>
              rw [List.map_singleton, List.intercalate_singleton]
              exact hfirst
          | cons second pairs =>
              have hcomma : Inner cuts [','] := .singleton (by decide) (by decide) (by decide)
              rw [List.map_cons, List.map_cons, List.intercalate_cons_cons, List.append_assoc]
              exact hfirst.append (hcomma.append (ih hothers))

end KeyPredicate

end ODataRequest
