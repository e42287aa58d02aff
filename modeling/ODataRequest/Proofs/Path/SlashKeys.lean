import ODataRequest.Proofs.Path.RoundTrip

/-! Keys as segments of their own. A bare segment is cut at its first parenthesis before anything asks
whether it is a literal, also where the parenthesis is quoted. Main statement: the text of a path in
the slash style is read as the same path exactly if no string among its unnamed keys holds an opening
parenthesis; the first one that does is refused. -/

namespace ODataRequest

open Text

namespace ResourcePath

open PathSegment

variable {style : KeyStyle} {index : Nat} {previous : Option PathSegment}
  {segments group : List PathSegment} {texts : List Text} {text : Text}

/-- A string with a parenthesis in it is taken for a name with a key after it, whose closing
parenthesis is missing. -/
theorem classifySegment_paren {value : Text} (h : '(' ∈ value) :
    classifySegment style index previous (quoted value) =
      .error (.invalidKey (quoted value) .trailing) := by
  have hstring : (Literal.string value).WellFormed := trivial
  have hempty : ¬(quoted value).isEmpty = true := by
    rw [List.isEmpty_iff]
    exact (Literal.literalText hstring).ne_nil
  have hmem : '(' ∈ quoted value :=
    List.mem_append_left _ (List.mem_cons_of_mem _ (mem_doubleQuotes_iff.mpr h))
  cases hcut : cutAt? '(' (quoted value) with
  | none => exact absurd hmem (cutAt?_eq_none_iff.mp hcut)
  | some parts =>
      obtain ⟨name, keyed⟩ := parts
      obtain ⟨htext, -⟩ := eq_of_cutAt?_eq_some hcut
      have hopen : before? ')' keyed = none := by
        rw [before?, if_neg]
        intro hclose
        have hwhole : (quoted value).getLast? = some ')' := by
          rw [htext, List.getLast?_append, List.getLast?_cons, hclose]
          rfl
        rw [quoted, List.getLast?_concat] at hwhole
        exact absurd hwhole (by decide)
      have hcontrol : control? (quoted value) = none := control?_slashKey hstring
      rw [classifySegment, if_neg hempty, hcontrol]
      dsimp only
      rw [hcut]
      dsimp only
      rw [hopen]

theorem classify_of_error {e : PathError}
    (h : classifySegment style index previous text = .error e) :
    classify style index previous (text :: texts) = .error e := by
  rw [classify, h]
  rfl

theorem classify_cons_error {e : PathError}
    (hgroup : classifySegment style index previous text = .ok group)
    (hothers : classify style (index + 1) group.getLast? texts = .error e) :
    classify style index previous (text :: texts) = .error e := by
  rw [classify, hgroup, ok_bind, hothers]
  rfl

/-- A segment that is no string key with a parenthesis leaves the search for one to those after it. -/
theorem exists_paren_of_cons {segment : PathSegment}
    (h : ∃ value, PathSegment.key (.single (.string value)) ∈ segment :: segments ∧ '(' ∈ value)
    (hother : ∀ value, segment = .key (.single (.string value)) → '(' ∉ value) :
    ∃ value, PathSegment.key (.single (.string value)) ∈ segments ∧ '(' ∈ value := by
  obtain ⟨value, hmem, hvalue⟩ := h
  rcases List.mem_cons.mp hmem with hsame | hmem
  · exact absurd hvalue (hother value hsame.symm)
  · exact ⟨value, hmem, hvalue⟩

/-- The first string with a parenthesis among the slash keys of a layout is where reading fails. -/
theorem Layout.classify_paren (h : Layout .slash previous segments texts)
    (hindex : index = 0 ↔ previous = none)
    (hparen : ∃ value, PathSegment.key (.single (.string value)) ∈ segments ∧ '(' ∈ value) :
    ∃ value, PathSegment.key (.single (.string value)) ∈ segments ∧ '(' ∈ value ∧
      ResourcePath.classify .slash index previous texts =
        .error (.invalidKey (quoted value) .trailing) := by
  induction h generalizing index with
  | nil =>
      obtain ⟨value, hmem, -⟩ := hparen
      cases hmem
  | control hfollows htext =>
      obtain ⟨value, hmem, -⟩ := hparen
      rw [← List.mem_singleton.mp hmem] at htext
      cases htext
  | @name previous named name rest texts hfollows hname hrest ih =>
      have hopen := exists_paren_of_cons hparen (by
        rintro value rfl
        cases hname)
      obtain ⟨value, hmem, hvalue, hclassify⟩ := ih (index_later index named) hopen
      exact ⟨value, List.mem_cons_of_mem _ hmem, hvalue,
        classify_cons_error (classifySegment_name hindex hfollows hname) hclassify⟩
  | @keyed previous owner predicate name rest texts hfollows hname hkey hjoined hrest ih =>
      have hkeys := exists_paren_of_cons hparen (by
        rintro value rfl
        cases hname)
      have hopen := exists_paren_of_cons hkeys (by
        rintro value hsame
        cases hsame
        cases hjoined)
      obtain ⟨value, hmem, hvalue, hclassify⟩ := ih (index_later index (.key predicate)) hopen
      exact ⟨value, List.mem_cons_of_mem _ (List.mem_cons_of_mem _ hmem), hvalue,
        classify_cons_error (classifySegment_keyed hindex hfollows hname hkey.2) hclassify⟩
  | @slashKey previous key rest texts hkey hjoined hrest ih =>
      by_cases hstring : ∃ value, key = .string value ∧ '(' ∈ value
      · obtain ⟨value, rfl, hvalue⟩ := hstring
        exact ⟨value, List.mem_cons_self, hvalue, classify_of_error (classifySegment_paren hvalue)⟩
      · have hopen := exists_paren_of_cons hparen (by
          rintro value hsame hvalue
          cases hsame
          exact hstring ⟨value, rfl, hvalue⟩)
        obtain ⟨value, hmem, hvalue, hclassify⟩ := ih (index_later index (.key (.single key))) hopen
        obtain ⟨_, hsame, -, hslash⟩ := slash_of_not_joined hjoined
        cases hsame
        have hclean : '(' ∉ key.render := not_mem_paren hkey.2 hslash fun text htext hmem =>
          hstring ⟨text, htext, hmem⟩
        exact ⟨value, List.mem_cons_of_mem _ hmem, hvalue,
          classify_cons_error (classifySegment_slashKey hkey hslash hclean) hclassify⟩

theorem parse_render_paren (h : Chain none segments)
    (hparen : ∃ value, PathSegment.key (.single (.string value)) ∈ segments ∧ '(' ∈ value) :
    ∃ value, PathSegment.key (.single (.string value)) ∈ segments ∧ '(' ∈ value ∧
      parse (ResourcePath.render ⟨segments⟩ .slash) .slash =
        .error (.invalidKey (quoted value) .trailing) := by
  have hnonempty : segments ≠ [] := by
    rintro rfl
    obtain ⟨value, hmem, -⟩ := hparen
    cases hmem
  obtain ⟨texts, hlayout⟩ : ∃ texts, Layout .slash none segments texts := exists_layout h
  obtain ⟨value, hmem, hvalue, hclassify⟩ := hlayout.classify_paren index_first hparen
  refine ⟨value, hmem, hvalue, ?_⟩
  rw [hlayout.parse hnonempty, hclassify]
  rfl

/-- **When slash keys are read again.** The text of a path in the slash style is read as the same path
exactly if no string among its unnamed keys holds an opening parenthesis. Otherwise such a key is
refused as the beginning of a key in parentheses. -/
theorem parse_render_slash_iff {path : ResourcePath} (h : parse text style = .ok path) :
    (parse (path.render .slash) .slash = .ok path ↔
      ∀ value, PathSegment.key (.single (.string value)) ∈ path.segments → '(' ∉ value) ∧
    (parse (path.render .slash) .slash ≠ .ok path →
      ∃ value, PathSegment.key (.single (.string value)) ∈ path.segments ∧ '(' ∈ value ∧
        parse (path.render .slash) .slash = .error (.invalidKey (quoted value) .trailing)) := by
  have hchain := chain_of_parse h
  by_cases hparen : ∃ value, PathSegment.key (.single (.string value)) ∈ path.segments ∧ '(' ∈ value
  · obtain ⟨value, hmem, hvalue, hparse⟩ := parse_render_paren hchain hparen
    refine ⟨⟨fun hok => ?_, fun hall => absurd hvalue (hall value hmem)⟩,
      fun _ => ⟨value, hmem, hvalue, hparse⟩⟩
    rw [hparse] at hok
    cases hok
  · have hall : ∀ value, PathSegment.key (.single (.string value)) ∈ path.segments → '(' ∉ value :=
      fun value hmem hvalue => hparen ⟨value, hmem, hvalue⟩
    have hparse : parse (path.render .slash) .slash = .ok path :=
      parse_render_of_chain hchain id fun _ => hall
    exact ⟨⟨fun _ => hall, fun _ => hparse⟩, fun hfails => absurd hparse hfails⟩

/-- A slash in a string key does no harm, and an opening parenthesis does. -/
theorem parse_render_slash_iff_paren :
    (parse "People('a/b')".toList .parentheses =
        .ok ⟨[.entitySet "People".toList, .key (.single (.string "a/b".toList))]⟩ ∧
      parse "People/'a%2Fb'".toList .slash =
        .ok ⟨[.entitySet "People".toList, .key (.single (.string "a/b".toList))]⟩) ∧
    parse "People('a(b')".toList .parentheses =
        .ok ⟨[.entitySet "People".toList, .key (.single (.string "a(b".toList))]⟩ ∧
      parse "People/'a(b'".toList .slash ≠
        .ok ⟨[.entitySet "People".toList, .key (.single (.string "a(b".toList))]⟩ ∧
      parse "People/'a(b'".toList .slash = .error (.invalidKey "'a(b'".toList .trailing) := by
  have hslash : parse "People('a/b')".toList .parentheses =
      .ok ⟨[.entitySet "People".toList, .key (.single (.string "a/b".toList))]⟩ := by
    decide +kernel
  have hparen : parse "People('a(b')".toList .parentheses =
      .ok ⟨[.entitySet "People".toList, .key (.single (.string "a(b".toList))]⟩ := by
    decide +kernel
  have hfails : parse "People/'a(b'".toList .slash ≠
      .ok ⟨[.entitySet "People".toList, .key (.single (.string "a(b".toList))]⟩ := by
    intro hok
    exact (parse_render_slash_iff hparen).1.mp hok "a(b".toList (by simp) (by decide)
  refine ⟨⟨hslash, ?_⟩, hparen, hfails, ?_⟩
  · refine (parse_render_slash_iff hslash).1.mpr fun value hmem => ?_
    have hvalue : value = "a/b".toList := by simpa using hmem
    rw [hvalue]
    decide
  · obtain ⟨value, hmem, -, herror⟩ := (parse_render_slash_iff hparen).2 hfails
    have hvalue : value = "a(b".toList := by simpa using hmem
    rw [hvalue] at herror
    exact herror

end ResourcePath

end ODataRequest
