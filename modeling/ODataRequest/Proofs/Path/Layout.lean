import ODataRequest.Proofs.Path.Segments
import ODataRequest.Proofs.Query.Primaries
import ODataRequest.Proofs.Text.Escapes

/-! The texts between the slashes of a canonical path: each is written for one segment, or for a name
with its key in parentheses. They are not empty and closed against slashes, so that the splitter finds
them again. -/

namespace ODataRequest

open Text Nesting

theorem Text.mem_doubleQuotes_iff {c : Char} {text : Text} : c ∈ doubleQuotes text ↔ c ∈ text := by
  induction text with
  | nil => rfl
  | cons d text ih =>
      rw [doubleQuotes]
      split
      · simp only [List.mem_cons, ih, or_self_left]
      · simp only [List.mem_cons, ih]

namespace PathSegment

variable {style : KeyStyle} {previous : Option PathSegment} {found : PathSegment} {name text : Text}

/-! ### Names and literals as texts of their own -/

/-- A name is a word without the marks of an option or an alias. -/
theorem word_of_follows (h : found.Follows previous) (hname : found.name? = some name) :
    Lexeme.isWord name = true ∧ name.all isBareChar = true := by
  have hword : ∀ {c : Char} {rest : Text}, Identifier.isStart c = true →
      (c :: rest).all Lexeme.isNameContinue = true →
        Lexeme.isWord (c :: rest) = true ∧ (c :: rest).all isBareChar = true := by
    intro c rest hstart hall
    rw [List.all_eq_true] at hall
    refine ⟨?_, List.all_eq_true.mpr fun d hd => isBareChar_of_isNameContinue (hall d hd)⟩
    rw [Lexeme.isWord, Bool.and_eq_true, List.all_eq_true]
    exact ⟨Lexeme.isNameStart_of_isStart hstart, fun d hd => hall d (List.mem_cons_of_mem c hd)⟩
  have hidentifier : isIdentifier name = true →
      Lexeme.isWord name = true ∧ name.all isBareChar = true := by
    intro hident
    cases name with
    | nil => cases hident
    | cons c rest =>
        rw [isIdentifier, Bool.and_eq_true, List.all_eq_true] at hident
        refine hword hident.1 (List.all_eq_true.mpr fun d hd => ?_)
        rcases List.mem_cons.mp hd with rfl | hd
        · exact Lexeme.isNameContinue_of_isStart hident.1
        · exact Lexeme.isNameContinue_of_isContinue (hident.2 d hd)
  cases found with
  | entitySet =>
      cases hname
      exact hidentifier h.2
  | navigation =>
      cases hname
      exact hidentifier h.2
  | boundOperation =>
      cases hname
      have hqualified : isQualifiedName name = true := h.2
      obtain ⟨c, rest, hcons, hstart⟩ := Literal.head_of_isQualifiedName hqualified
      rw [hcons] at hqualified ⊢
      exact hword hstart
        (List.all_eq_true.mpr fun d hd => Literal.mem_of_isQualifiedName hqualified hd)
  | _ => cases hname

/-- Only a text that a dollar sign begins is a control segment. -/
theorem control?_eq_none (h : text.head? ≠ some '$') : control? text = none := by
  cases hcontrol : control? text with
  | none => rfl
  | some control =>
      rw [control?_eq_some_iff] at hcontrol
      cases control <;> cases hcontrol <;> exact absurd rfl h

end PathSegment

namespace ResourcePath

open PathSegment

variable {style : KeyStyle} {previous : Option PathSegment} {segments : List PathSegment}
  {texts : List Text} {text current : Text} {value : Literal}

/-- A word is no literal that may be a segment of its own. -/
theorem isSlashLiteral_of_word (h : Lexeme.isWord text = true)
    (hvalue : Literal.ofText? text = some value) : isSlashLiteral value = false := by
  obtain ⟨c, rest, rfl, hstart, hrest⟩ := Lexeme.isWord_cons h
  have hhead : ∀ {mark : Char}, Lexeme.isNameStart mark = false → c ≠ mark := by
    rintro mark hmark rfl
    rw [hstart] at hmark
    cases hmark
  have hnumber : ¬Number.Written (c :: rest) := by
    intro hwritten
    obtain ⟨-, d, others, hcons, hd⟩ := Number.head_of_written hwritten
    cases hcons
    rcases hd with hdigit | hsign
    · rw [Lexeme.not_digit_of_isNameStart hstart] at hdigit
      cases hdigit
    · exact hhead (by decide) hsign
  rw [Literal.ofText?] at hvalue
  split at hvalue
  · cases hvalue
    rfl
  split at hvalue
  · cases hvalue
    rfl
  split at hvalue
  · cases hvalue
    rfl
  split at hvalue
  · rename_i hquote
    exact absurd (Option.some.inj hquote) (hhead (by decide))
  split at hvalue
  · rename_i hguid
    have hcount := count_hyphen_of_isGuid hguid
    rw [Lexeme.count_hyphen_of_isWord h] at hcount
    cases hcount
  split at hvalue
  · split at hvalue
    · obtain ⟨member, -, rfl⟩ := Option.map_eq_some_iff.mp hvalue
      rfl
    · cases hvalue
  split at hvalue
  · rename_i hinteger
    exact absurd (Number.written_iff.mpr (Or.inl hinteger)) hnumber
  split at hvalue
  · rename_i hdecimal
    exact absurd (Number.written_iff.mpr (Or.inr hdecimal)) hnumber
  · cases hvalue

/-- Only a string key can hold a parenthesis. -/
theorem not_mem_paren (h : value.WellFormed) (hslash : isSlashLiteral value = true)
    (hstring : ∀ text, value = .string text → '(' ∉ text) : '(' ∉ value.render := by
  have hbare : ∀ {text : Text}, text.all isBareChar = true → '(' ∉ text := by
    intro text hall hmem
    have hne : '(' ≠ '(' := ne_of_isBareChar (List.all_eq_true.mp hall _ hmem)
    exact hne rfl
  cases value with
  | integer value =>
      exact hbare (bare_of_written (Number.written_iff.mpr (Or.inl (Number.isInteger_ofInt value))))
  | decimal text => exact hbare (bare_of_written h.1)
  | guid text => exact hbare (bare_of_isGuid h.1)
  | string text =>
      intro hmem
      rw [Literal.render, quoted, List.cons_append, List.mem_cons, List.mem_append,
        List.mem_singleton] at hmem
      rcases hmem with hquote | hmem | hquote
      · exact absurd hquote (by decide)
      · exact hstring text rfl (mem_doubleQuotes_iff.mp hmem)
      · exact absurd hquote (by decide)
  | _ => cases hslash

/-! ### Segments and the texts between slashes -/

/-- A key that is written onto the text before it. -/
def isJoined (style : KeyStyle) (found : PathSegment) : Bool :=
  (renderSegment style found).1

/-- The texts between slashes that the segments of a chain are written as, not escaped. -/
inductive Layout (style : KeyStyle) : Option PathSegment → List PathSegment → List Text → Prop where
  | nil {previous : Option PathSegment} : Layout style previous [] []
  | control {previous : Option PathSegment} {control : PathSegment} {text : Text}
      (hfollows : control.Follows previous) (htext : control.controlText? = some text) :
      Layout style previous [control] [text]
  | name {previous : Option PathSegment} {named : PathSegment} {name : Text} {rest : List PathSegment}
      {texts : List Text} (hfollows : named.Follows previous) (hname : named.name? = some name)
      (hrest : Layout style (some named) rest texts) :
      Layout style previous (named :: rest) (name :: texts)
  | keyed {previous : Option PathSegment} {owner : PathSegment} {predicate : KeyPredicate} {name : Text}
      {rest : List PathSegment} {texts : List Text} (hfollows : owner.Follows previous)
      (hname : owner.name? = some name) (hkey : (PathSegment.key predicate).Follows (some owner))
      (hjoined : isJoined style (.key predicate) = true)
      (hrest : Layout style (some (.key predicate)) rest texts) :
      Layout style previous (owner :: .key predicate :: rest)
        ((name ++ '(' :: predicate.render ++ [')']) :: texts)
  | slashKey {previous : Option PathSegment} {value : Literal} {rest : List PathSegment}
      {texts : List Text} (hkey : (PathSegment.key (.single value)).Follows previous)
      (hjoined : isJoined style (.key (.single value)) = false)
      (hrest : Layout style (some (.key (.single value))) rest texts) :
      Layout style previous (.key (.single value) :: rest) (value.render :: texts)

theorem name_cases (found : PathSegment) : (∃ name, found.name? = some name) ∨
    (∃ text, found.controlText? = some text) ∨ ∃ predicate, found = .key predicate := by
  cases found with
  | key predicate => exact Or.inr (Or.inr ⟨predicate, rfl⟩)
  | entitySet name => exact Or.inl ⟨name, rfl⟩
  | navigation name => exact Or.inl ⟨name, rfl⟩
  | boundOperation name => exact Or.inl ⟨name, rfl⟩
  | _ => exact Or.inr (Or.inl ⟨_, rfl⟩)

theorem isJoined_of_name {named : PathSegment} {name : Text} (h : named.name? = some name) :
    isJoined style named = false := by
  cases named <;> first | rfl | cases h

theorem isJoined_of_control {control : PathSegment} {text : Text} (h : control.controlText? = some text) :
    isJoined style control = false := by
  cases control <;> first | rfl | cases h

theorem endsPath_of_control {control : PathSegment} {text : Text} (h : control.controlText? = some text) :
    control.endsPath = true := by
  cases control <;> first | rfl | cases h

/-- A key that is not joined is the literal of the slash style. -/
theorem slash_of_not_joined {predicate : KeyPredicate} (h : isJoined style (.key predicate) = false) :
    ∃ value, predicate = .single value ∧ style = .slash ∧ isSlashLiteral value = true := by
  cases predicate with
  | single value =>
      refine ⟨value, rfl, ?_⟩
      rw [isJoined, renderSegment] at h
      split at h
      · rename_i hslash
        rwa [Bool.and_eq_true, decide_eq_true_eq] at hslash
      · cases h
  | named pairs => cases h

theorem key_of_isJoined {found : PathSegment} (h : isJoined style found = true) :
    ∃ predicate, found = .key predicate := by
  rcases name_cases found with ⟨name, hname⟩ | ⟨text, htext⟩ | hkey
  · rw [isJoined_of_name hname] at h
    cases h
  · rw [isJoined_of_control htext] at h
    cases h
  · exact hkey

theorem follows_of_chain {found : PathSegment} {rest : List PathSegment}
    (h : Chain previous (found :: rest)) : found.Follows previous := by
  cases h with
  | cons hfollows _ _ => exact hfollows

/-- Nothing is joined to what takes no key. -/
theorem not_joined_of_not_takesKey {found : PathSegment} (h : found.Follows previous)
    (hprevious : previous.any takesKey = false) : isJoined style found = false := by
  rw [Bool.eq_false_iff]
  intro hjoined
  obtain ⟨predicate, rfl⟩ := key_of_isJoined hjoined
  have htakes : previous.any takesKey = true := h.1
  rw [hprevious] at htakes
  cases htakes

/-- Every chain has a layout. A key that is joined to what precedes the chain belongs to a text that
begins before it. -/
theorem layout_of_chain (h : Chain previous segments) :
    (segments.head?.any (isJoined style) = false → ∃ texts, Layout style previous segments texts) ∧
      ∀ predicate rest, segments = .key predicate :: rest →
        ∃ texts, Layout style (some (.key predicate)) rest texts := by
  induction h with
  | nil => exact ⟨fun _ => ⟨[], .nil⟩, fun predicate rest hnil => by cases hnil⟩
  | @cons previous found rest hfollows hend hrest ih =>
      obtain ⟨ihrest, ihkey⟩ := ih
      have hafter : found.takesKey = false → ∃ texts, Layout style (some found) rest texts := by
        intro htakes
        refine ihrest ?_
        cases rest with
        | nil => rfl
        | cons next rest => exact not_joined_of_not_takesKey (follows_of_chain hrest) htakes
      refine ⟨fun hhead => ?_, fun predicate others hcons => ?_⟩
      · rcases name_cases found with ⟨name, hname⟩ | ⟨text, htext⟩ | ⟨predicate, rfl⟩
        · by_cases hjoined : rest.head?.any (isJoined style) = true
          · cases rest with
            | nil => cases hjoined
            | cons next others =>
                have hnext : isJoined style next = true := by simpa using hjoined
                obtain ⟨predicate, rfl⟩ := key_of_isJoined hnext
                obtain ⟨texts, htexts⟩ := ihkey predicate others rfl
                exact ⟨_ :: texts, .keyed hfollows hname (follows_of_chain hrest) hnext htexts⟩
          · obtain ⟨texts, htexts⟩ := ihrest (Bool.eq_false_iff.mpr hjoined)
            exact ⟨name :: texts, .name hfollows hname htexts⟩
        · obtain rfl := hend (endsPath_of_control htext)
          exact ⟨[text], .control hfollows htext⟩
        · obtain ⟨value, rfl, -, -⟩ := slash_of_not_joined hhead
          obtain ⟨texts, htexts⟩ := hafter rfl
          exact ⟨value.render :: texts, .slashKey hfollows hhead htexts⟩
      · cases hcons
        exact hafter rfl

theorem exists_layout (h : Chain none segments) : ∃ texts, Layout style none segments texts := by
  refine (layout_of_chain h).1 ?_
  cases h with
  | nil => rfl
  | cons hfollows _ _ => exact not_joined_of_not_takesKey hfollows rfl

/-! ### Writing -/

theorem renderLater_name {named : PathSegment} {name : Text} (h : named.name? = some name) :
    renderLater style named = '/' :: Percent.escape .path name := by
  cases named <;> cases h <;> rfl

theorem renderLater_control {control : PathSegment} {text : Text} (h : control.controlText? = some text) :
    renderLater style control = '/' :: Percent.escape .path text := by
  cases control <;> cases h <;> rfl

theorem renderLater_joined {predicate : KeyPredicate} (h : isJoined style (.key predicate) = true) :
    renderLater style (.key predicate) = Percent.escape .path ('(' :: predicate.render ++ [')']) := by
  cases predicate with
  | single value =>
      rw [isJoined, renderSegment] at h
      rw [renderLater, renderSegment]
      split at h
      · cases h
      · rename_i hslash
        rw [if_neg hslash]
        rfl
  | named pairs => rfl

theorem renderLater_slash {value : Literal} (h : isJoined style (.key (.single value)) = false) :
    renderLater style (.key (.single value)) = '/' :: Percent.escape .path value.render := by
  rw [isJoined, renderSegment] at h
  rw [renderLater, renderSegment]
  split at h
  · rename_i hslash
    rw [if_pos hslash]
    rfl
  · cases h

theorem renderSegment_escape (style : KeyStyle) (found : PathSegment) :
    ∃ text, (renderSegment style found).2 = Percent.escape .path text := by
  cases found with
  | key predicate =>
      cases predicate with
      | single value =>
          rw [renderSegment]
          split
          · exact ⟨_, rfl⟩
          · exact ⟨_, rfl⟩
      | named pairs => exact ⟨_, rfl⟩
  | _ => exact ⟨_, rfl⟩

/-- Of the marks that no segment holds, only the slash stands in a path. -/
theorem not_mem_render {mark : Char} (h : Percent.Profile.path.Excludes mark) (hslash : mark ≠ '/')
    (path : ResourcePath) (style : KeyStyle) : mark ∉ path.render style := by
  have hsegment : ∀ found, mark ∉ (renderSegment style found).2 := by
    intro found
    obtain ⟨text, htext⟩ := renderSegment_escape style found
    rw [htext]
    exact Percent.not_mem_escape h text
  have hlater : ∀ found, mark ∉ renderLater style found := by
    intro found
    rw [renderLater]
    dsimp only
    split
    · exact hsegment found
    · rw [List.mem_cons, not_or]
      exact ⟨hslash, hsegment found⟩
  rw [ResourcePath.render]
  split
  · exact List.not_mem_nil
  · rw [List.mem_append, List.mem_flatMap, not_or]
    exact ⟨hsegment _, fun hmem => hmem.elim fun found hfound => hlater found hfound.2⟩

theorem escape_append (left right : Text) :
    Percent.escape .path (left ++ right) = Percent.escape .path left ++ Percent.escape .path right := by
  simp only [Percent.escape, Percent.encode, Utf8.encode, List.flatMap_append]

/-- The texts of a layout, each escaped and after a slash. -/
def slashed (texts : List Text) : Text :=
  texts.flatMap fun text => '/' :: Percent.escape .path text

/-- The character that a path is split at. -/
def isSlash (c : Char) : Bool :=
  c = '/'

namespace Layout

theorem flatMap_renderLater (h : Layout style previous segments texts) :
    segments.flatMap (renderLater style) = slashed texts := by
  induction h with
  | nil => rfl
  | control _ htext =>
      rw [List.flatMap_singleton, renderLater_control htext, slashed, List.flatMap_singleton]
  | name _ hname _ ih =>
      rw [List.flatMap_cons, renderLater_name hname, ih]
      rfl
  | keyed _ hname _ hjoined _ ih =>
      rw [List.flatMap_cons, List.flatMap_cons, renderLater_name hname, renderLater_joined hjoined, ih,
        ← List.append_assoc, List.cons_append, ← escape_append, List.append_assoc]
      rfl
  | slashKey _ hjoined _ ih =>
      rw [List.flatMap_cons, renderLater_slash hjoined, ih]
      rfl

theorem head_not_joined (h : Layout style previous segments texts) :
    segments.head?.any (isJoined style) = false := by
  cases h with
  | nil => rfl
  | control _ htext => exact isJoined_of_control htext
  | name _ hname _ => exact isJoined_of_name hname
  | keyed _ hname _ _ _ => exact isJoined_of_name hname
  | slashKey _ hjoined _ => exact hjoined

/-- The canonical text of a path is that of its layout, without the first slash. -/
theorem cons_render (h : Layout style previous segments texts) (hnonempty : segments ≠ []) :
    '/' :: ResourcePath.render ⟨segments⟩ style = slashed texts := by
  have hhead := h.head_not_joined
  rw [← h.flatMap_renderLater]
  cases segments with
  | nil => exact absurd rfl hnonempty
  | cons first rest =>
      have hfirst : (renderSegment style first).1 = false := hhead
      have hlater : renderLater style first = '/' :: (renderSegment style first).2 := by
        rw [renderLater]
        dsimp only
        rw [hfirst, if_neg Bool.false_ne_true]
      rw [List.flatMap_cons, hlater, ResourcePath.render]
      rfl

theorem ne_nil (h : Layout style previous segments texts) (hnonempty : segments ≠ []) : texts ≠ [] := by
  cases h with
  | nil => exact absurd rfl hnonempty
  | _ => exact List.cons_ne_nil _ _

/-- A path that is not empty is written as the text of its first segments and the others, each after a
slash. -/
theorem exists_render (h : Layout style previous segments texts) (hnonempty : segments ≠ []) :
    ∃ first others, texts = first :: others ∧
      ResourcePath.render ⟨segments⟩ style = Percent.escape .path first ++ slashed others := by
  obtain ⟨first, others, rfl⟩ := List.exists_cons_of_ne_nil (h.ne_nil hnonempty)
  exact ⟨first, others, rfl, (List.cons.inj (h.cons_render hnonempty)).2⟩

/-! ### The texts -/

theorem text_spec (h : Layout style previous segments texts) :
    ∀ text ∈ texts, text ≠ [] ∧ Closed isSlash text := by
  have hbare : ∀ c, isBareChar c = true → isSlash c = false := by
    intro c hc
    exact decide_eq_false (ne_of_isBareChar hc)
  have hname : ∀ {named : PathSegment} {name : Text} {previous : Option PathSegment},
      named.Follows previous → named.name? = some name → name ≠ [] ∧ Closed isSlash name := by
    intro named name previous hfollows hname
    have hnonempty := ne_nil_of_follows hfollows hname
    exact ⟨hnonempty, (LiteralText.bare hnonempty (word_of_follows hfollows hname).2).closed hbare⟩
  induction h with
  | nil => exact fun text hmem => by cases hmem
  | @control previous control text _ htext =>
      rw [List.forall_mem_singleton]
      cases control <;> cases htext <;> exact ⟨by decide, by decide⟩
  | name hfollows hnamed _ ih => exact List.forall_mem_cons.mpr ⟨hname hfollows hnamed, ih⟩
  | keyed hfollows hnamed hkey _ _ ih =>
      refine List.forall_mem_cons.mpr ⟨⟨by simp, ?_⟩, ih⟩
      rw [List.append_assoc]
      exact (hname hfollows hnamed).2.append (KeyPredicate.closed_render hkey.2 hbare)
  | @slashKey _ value _ _ hkey _ _ ih =>
      have hvalue : value.WellFormed := hkey.2
      have htext := Literal.literalText hvalue
      exact List.forall_mem_cons.mpr ⟨⟨htext.ne_nil, htext.closed hbare⟩, ih⟩

end Layout

end ResourcePath

end ODataRequest
