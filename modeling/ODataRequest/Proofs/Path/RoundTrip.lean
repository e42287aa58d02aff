import ODataRequest.Proofs.Path.Layout

/-! The round trip of writing and reading a path. The splitter finds the texts of a layout again, and
each of them is classified as the segments that it was written for. Main statement: the canonical text
of a path that was read is read as the same path, in the style that it was read in. -/

namespace ODataRequest

open Text Nesting

namespace ResourcePath

open PathSegment

variable {style reading : KeyStyle} {index count depth depth' : Nat} {inQuotes inQuotes' : Bool}
  {previous : Option PathSegment} {segments : List PathSegment} {texts : List Text} {current text rest : Text}

/-! ### Splitting -/

theorem splitSegments_of_step {c : Char} (h : step isSlash depth inQuotes c = some (depth', inQuotes'))
    (current rest : Text) : splitSegments current depth inQuotes (c :: rest) =
      splitSegments (c :: current) depth' inQuotes' rest := by
  rw [splitSegments.eq_def]
  rw [step] at h
  dsimp only
  by_cases hquote : c = quoteMark
  · rw [if_pos hquote] at h ⊢
    cases h
    rfl
  rw [if_neg hquote] at h ⊢
  by_cases hin : inQuotes = true
  · rw [if_pos hin] at h ⊢
    cases h
    rfl
  rw [if_neg hin] at h ⊢
  by_cases hopen : c = '('
  · rw [if_pos hopen] at h ⊢
    cases h
    rfl
  rw [if_neg hopen] at h ⊢
  by_cases hclose : c = ')'
  · rw [if_pos hclose] at h ⊢
    cases depth with
    | zero => cases h
    | succ depth =>
        cases h
        rfl
  rw [if_neg hclose] at h ⊢
  by_cases hslash : (isSlash c && decide (depth = 0)) = true
  · rw [if_pos hslash] at h
    cases h
  · rw [if_neg hslash] at h
    cases h
    rw [isSlash] at hslash
    exact if_neg hslash

theorem splitSegments_append (h : after? isSlash depth inQuotes text = some (depth', inQuotes'))
    (current rest : Text) : splitSegments current depth inQuotes (text ++ rest) =
      splitSegments (text.reverse ++ current) depth' inQuotes' rest := by
  induction text generalizing depth inQuotes current with
  | nil =>
      cases h
      rfl
  | cons c text ih =>
      rw [Nesting.after?, Option.bind_eq_some_iff] at h
      obtain ⟨state, hstep, h⟩ := h
      rw [List.cons_append, splitSegments_of_step hstep, ih h, List.reverse_cons, List.append_assoc]
      rfl

/-- Closed texts with slashes between them are split at exactly these slashes. -/
theorem splitSegments_closed {first : Text} {others : List Text}
    (h : ∀ text ∈ first :: others, Closed isSlash text) :
    splitSegments [] 0 false (first ++ others.flatMap ('/' :: ·)) = .ok (first :: others) := by
  induction others generalizing first with
  | nil =>
      have hfirst := splitSegments_append (h first List.mem_cons_self) [] []
      rw [List.flatMap_nil, hfirst, List.append_nil, splitSegments, if_neg (by decide), List.reverse_reverse]
  | cons second others ih =>
      obtain ⟨hfirst, hothers⟩ := List.forall_mem_cons.mp h
      rw [List.flatMap_cons, splitSegments_append hfirst, List.append_nil, List.cons_append,
        splitSegments.eq_def]
      dsimp only
      rw [if_neg (by decide), if_neg Bool.false_ne_true, if_neg (by decide), if_neg (by decide),
        if_pos (by decide), ih hothers, List.reverse_reverse]
      rfl

/-! ### Unescaping -/

theorem unescapedBytes_slashed (texts : List Text) :
    Percent.unescapedBytes (slashed texts) = Utf8.encode (texts.flatMap ('/' :: ·)) := by
  induction texts with
  | nil => rfl
  | cons text texts ih =>
      have hslashed : slashed (text :: texts) = '/' :: (Percent.escape .path text ++ slashed texts) := rfl
      rw [hslashed, Percent.unescapedBytes_of_ne (by decide), Percent.unescapedBytes_escape, ih,
        List.flatMap_cons, Utf8.encode, Utf8.encode, Utf8.encode, List.flatMap_append, List.flatMap_cons,
        List.append_assoc]

/-- Escaped texts with slashes between them stand for the texts with slashes between them. -/
theorem unescape_slashed (first : Text) (others : List Text) :
    Percent.unescape (Percent.escape .path first ++ slashed others) =
      .ok (first ++ others.flatMap ('/' :: ·)) := by
  rw [Percent.unescape, Percent.unescapedBytes_escape, unescapedBytes_slashed, Utf8.encode,
    Utf8.encode, ← List.flatMap_append]
  exact Utf8.decode_encode _

/-! ### Classifying -/

theorem classifySegment_control {control : PathSegment} (h : control.controlText? = some text) :
    classifySegment style index previous text = .ok [control] := by
  have hempty : ¬text.isEmpty = true := by
    cases control <;> cases h <;> decide
  rw [classifySegment, if_neg hempty, control?_eq_some_iff.mpr h]

theorem not_mem_of_bare {mark : Char} (h : text.all isBareChar = true)
    (hmark : isBareChar mark = false := by decide) : mark ∉ text := fun hmem =>
  ne_of_isBareChar (List.all_eq_true.mp h _ hmem) hmark rfl

theorem head?_ne_of_not_mem {mark : Char} (h : mark ∉ text) (rest : Text) (hempty : text ≠ []) :
    (text ++ rest).head? ≠ some mark := by
  rw [List.head?_append_of_ne_nil text hempty]
  exact fun hhead => h (List.mem_of_head? hhead)

/-- A literal begins with a bare character or a quote. -/
theorem LiteralText.head?_ne (h : LiteralText text) {mark : Char} (hquote : mark ≠ quoteMark)
    (hmark : isBareChar mark = false) : text.head? ≠ some mark := by
  cases h with
  | bare _ h => exact fun hhead => not_mem_of_bare h hmark (List.mem_of_head? hhead)
  | @quoted lead h value =>
      cases lead with
      | nil => exact fun hhead => hquote (Option.some.inj hhead).symm
      | cons c lead => exact head?_ne_of_not_mem (not_mem_of_bare h hmark) _ (List.cons_ne_nil c lead)

theorem classifySegment_name (hindex : index = 0 ↔ previous = none) {named : PathSegment} {name : Text}
    (h : named.Follows previous) (hname : named.name? = some name) :
    classifySegment style index previous name = .ok [named] := by
  obtain ⟨hword, hbare⟩ := word_of_follows h hname
  have hempty := ne_nil_of_follows h hname
  have hslash : slashKey? style previous name = none := by
    rw [slashKey?]
    split
    · rw [Option.filter_eq_none_iff]
      intro value hvalue
      rw [isSlashLiteral_of_word hword hvalue]
      exact Bool.false_ne_true
    · rfl
  have hdollar : '$' ∉ name := not_mem_of_bare hbare
  have hhead : name.head? ≠ some '$' := fun hhead => hdollar (List.mem_of_head? hhead)
  rw [classifySegment, if_neg (by rwa [List.isEmpty_iff]), control?_eq_none hhead]
  dsimp only
  rw [cutAt?_eq_none_iff.mpr (not_mem_of_bare hbare)]
  dsimp only
  rw [hslash, nameSegment_of_follows hindex h hname]
  rfl

theorem classifySegment_keyed (hindex : index = 0 ↔ previous = none) {owner : PathSegment} {name : Text}
    {predicate : KeyPredicate} (h : owner.Follows previous) (hname : owner.name? = some name)
    (hkey : predicate.WellFormed) :
    classifySegment style index previous (name ++ '(' :: predicate.render ++ [')']) =
      .ok [owner, .key predicate] := by
  obtain ⟨-, hbare⟩ := word_of_follows h hname
  have hempty := ne_nil_of_follows h hname
  have hclosing : before? ')' (predicate.render ++ [')']) = some predicate.render := by
    rw [before?, if_pos List.getLast?_concat, List.dropLast_concat]
  have hdollar : '$' ∉ name := not_mem_of_bare hbare
  have hhead := head?_ne_of_not_mem hdollar ('(' :: (predicate.render ++ [')'])) hempty
  rw [List.append_assoc, List.cons_append, classifySegment, if_neg (by simp), control?_eq_none hhead]
  dsimp only
  rw [cutAt?_append (not_mem_of_bare hbare)]
  dsimp only
  rw [hclosing]
  dsimp only
  rw [nameSegment_of_follows hindex h hname, ok_bind, KeyPredicate.parse, KeyPredicate.read_render hkey]
  rfl

/-- A slash key is no control segment, whatever stands in it. -/
theorem control?_slashKey {value : Literal} (h : value.WellFormed) : control? value.render = none :=
  control?_eq_none (LiteralText.head?_ne (Literal.literalText h) (by decide) (by decide))

theorem classifySegment_slashKey {value : Literal} (h : (PathSegment.key (.single value)).Follows previous)
    (hslash : isSlashLiteral value = true) (hparen : '(' ∉ value.render) :
    classifySegment .slash index previous value.render = .ok [.key (.single value)] := by
  have hvalue : value.WellFormed := h.2
  have hkey : slashKey? .slash previous value.render = some value := by
    rw [slashKey?, if_pos (by rw [h.1]; rfl), Literal.ofText?_render hvalue,
      Option.filter_some_pos hslash]
  rw [classifySegment, if_neg (by rw [List.isEmpty_iff]; exact (Literal.literalText hvalue).ne_nil),
    control?_slashKey hvalue]
  dsimp only
  rw [cutAt?_eq_none_iff.mpr hparen]
  dsimp only
  rw [hkey]

theorem classify_cons {group : List PathSegment} {others : List (Nat × PathSegment)}
    (hgroup : classifySegment style index previous text = .ok group)
    (hothers : classify style (index + 1) group.getLast? texts = .ok others) :
    classify style index previous (text :: texts) = .ok (group.map (index, ·) ++ others) := by
  rw [classify, hgroup, ok_bind, hothers]
  rfl

theorem checkOrder_cons {found : PathSegment} {others : List (Nat × PathSegment)}
    (h : placementFault? count index previous found = none) :
    checkOrder count previous ((index, found) :: others) = checkOrder count (some found) others := by
  rw [checkOrder, h]

theorem placement_name {named : PathSegment} {name : Text} (h : named.name? = some name) :
    placementFault? count index previous named = none := by
  cases named <;> first | rfl | cases h

theorem placement_key {predicate : KeyPredicate} (h : (PathSegment.key predicate).Follows previous) :
    placementFault? count index previous (.key predicate) = none :=
  if_pos h.1

theorem placement_control {control : PathSegment} (hcontrol : control.controlText? = some text)
    (h : control.Follows previous) (hindex : index = 0 ↔ previous = none) (hlast : index + 1 = count) :
    placementFault? count index previous control = none := by
  have halone : previous = none → count = 1 := fun hnone => by
    rw [← hlast, hindex.mpr hnone]
  have hnotLast : ¬index + 1 ≠ count := not_not.mpr hlast
  cases control with
  | metadata => exact if_pos (halone h)
  | batch => exact if_pos (halone h)
  | count => exact (if_neg hnotLast).trans (if_pos h)
  | ref => exact (if_neg hnotLast).trans (if_pos h)
  | value => exact (if_neg hnotLast).trans (if_pos h)
  | _ => cases hcontrol

/-- The texts of a layout are classified as its segments, in an order that passes the check. Slash keys
are only read as what they are in their own style, and without a parenthesis. -/
theorem Layout.classify (h : Layout style previous segments texts)
    (hreading : style = .slash → reading = .slash)
    (hparen : style = .slash →
      ∀ text, PathSegment.key (.single (.string text)) ∈ segments → '(' ∉ text)
    (hindex : index = 0 ↔ previous = none) (hcount : index + texts.length = count) :
    ∃ classified, ResourcePath.classify reading index previous texts = .ok classified ∧
      classified.map Prod.snd = segments ∧ checkOrder count previous classified = .ok () := by
  induction h generalizing index with
  | nil => exact ⟨[], rfl, rfl, rfl⟩
  | @control previous control text hfollows htext =>
      refine ⟨[(index, control)], classify_cons (classifySegment_control htext) rfl, rfl, ?_⟩
      rw [checkOrder_cons (placement_control htext hfollows hindex hcount)]
      rfl
  | @name previous named name rest texts hfollows hname hrest ih =>
      rw [List.length_cons] at hcount
      obtain ⟨others, hothers, hsegments, hcheck⟩ :=
        ih (fun hstyle text hmem => hparen hstyle text (List.mem_cons_of_mem _ hmem))
          (index_later index named) (by omega)
      refine ⟨(index, named) :: others, classify_cons (classifySegment_name hindex hfollows hname) hothers,
        congrArg (named :: ·) hsegments, ?_⟩
      rw [checkOrder_cons (placement_name hname)]
      exact hcheck
  | @keyed previous owner predicate name rest texts hfollows hname hkey hjoined hrest ih =>
      rw [List.length_cons] at hcount
      obtain ⟨others, hothers, hsegments, hcheck⟩ :=
        ih (fun hstyle text hmem => hparen hstyle text
            (List.mem_cons_of_mem _ (List.mem_cons_of_mem _ hmem)))
          (index_later index (.key predicate)) (by omega)
      refine ⟨(index, owner) :: (index, .key predicate) :: others,
        classify_cons (classifySegment_keyed hindex hfollows hname hkey.2) hothers,
        congrArg (owner :: .key predicate :: ·) hsegments, ?_⟩
      rw [checkOrder_cons (placement_name hname), checkOrder_cons (placement_key hkey)]
      exact hcheck
  | @slashKey previous value rest texts hkey hjoined hrest ih =>
      rw [List.length_cons] at hcount
      obtain ⟨others, hothers, hsegments, hcheck⟩ :=
        ih (fun hstyle text hmem => hparen hstyle text (List.mem_cons_of_mem _ hmem))
          (index_later index (.key (.single value))) (by omega)
      obtain ⟨found, hfound, hstyle, hslash⟩ := slash_of_not_joined hjoined
      cases hfound
      have hvalue : '(' ∉ value.render := by
        refine not_mem_paren hkey.2 hslash fun text htext => hparen hstyle text ?_
        rw [htext]
        exact List.mem_cons_self
      obtain rfl : reading = .slash := hreading hstyle
      refine ⟨(index, .key (.single value)) :: others,
        classify_cons (classifySegment_slashKey hkey hslash hvalue) hothers,
        congrArg (PathSegment.key (.single value) :: ·) hsegments, ?_⟩
      rw [checkOrder_cons (placement_key hkey)]
      exact hcheck

/-! ### The whole path -/

/-- Reading the canonical text of a path is classifying the texts of its layout. -/
theorem Layout.parse (h : Layout style none segments texts) (hnonempty : segments ≠ [])
    (reading : KeyStyle) :
    ResourcePath.parse (ResourcePath.render ⟨segments⟩ style) reading =
      (do
        let classified ← ResourcePath.classify reading 0 none texts
        checkOrder texts.length none classified
        .ok ⟨classified.map Prod.snd⟩) := by
  obtain ⟨first, others, rfl, hrender⟩ := h.exists_render hnonempty
  have hsplit := splitSegments_closed fun text hmem => (h.text_spec text hmem).2
  have hpath : ¬(Percent.escape .path first ++ slashed others).isEmpty = true := by
    rw [List.isEmpty_iff, List.append_eq_nil_iff, not_and_or]
    exact Or.inl (Percent.escape_ne_nil (h.text_spec first List.mem_cons_self).1)
  rw [hrender, ResourcePath.parse, if_neg hpath, unescape_slashed]
  dsimp only
  rw [ofDecoded, hsplit, ok_bind]

/-- The canonical text of a chain in one style is read as the chain in any style that has its slash
keys. -/
theorem parse_render_of_chain (h : Chain none segments) (hreading : style = .slash → reading = .slash)
    (hparen : style = .slash →
      ∀ text, PathSegment.key (.single (.string text)) ∈ segments → '(' ∉ text) :
    parse (ResourcePath.render ⟨segments⟩ style) reading = .ok ⟨segments⟩ := by
  by_cases hempty : segments = []
  · rw [hempty]
    rfl
  obtain ⟨texts, hlayout⟩ : ∃ texts, Layout style none segments texts := exists_layout h
  obtain ⟨classified, hclassify, rfl, hcheck⟩ :=
    hlayout.classify hreading hparen index_first (Nat.zero_add _)
  rw [hlayout.parse hempty, hclassify, ok_bind, hcheck]
  rfl

/-- The path of a chain is read from its own canonical text. -/
theorem parse_canonical_of_chain (h : Chain none segments)
    (hparen : style = .slash →
      ∀ text, PathSegment.key (.single (.string text)) ∈ segments → '(' ∉ text) :
    parse (ResourcePath.render ⟨segments⟩ style) style = .ok ⟨segments⟩ :=
  parse_render_of_chain h id hparen

/-- **Reading what was written.** The canonical text of a path that was read is read as the same
path. -/
theorem parse_canonical {path : ResourcePath} (h : parse text style = .ok path)
    (hparen : style = .slash →
      ∀ text, PathSegment.key (.single (.string text)) ∈ path.segments → '(' ∉ text) :
    parse (path.render style) style = .ok path :=
  parse_canonical_of_chain (chain_of_parse h) hparen

end ResourcePath

end ODataRequest
