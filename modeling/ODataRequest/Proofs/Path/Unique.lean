import ODataRequest.Proofs.Path.SlashKeys

/-! One text, one path. The texts of a layout determine its segments, whatever the style: each of them
is classified as the segments that it was written for, except for a string key with a parenthesis,
which nothing else is written as. Main statement: two chains that are written alike are the same, also
where they are written in different styles. -/

namespace ODataRequest

open Text

theorem Literal.render_injective {value value' : Literal} (h : value.WellFormed)
    (h' : value'.WellFormed) (hrender : value.render = value'.render) : value = value' := by
  have hread := Literal.ofText?_render h
  rw [hrender, Literal.ofText?_render h'] at hread
  exact (Option.some.inj hread).symm

namespace ResourcePath

open PathSegment

variable {style style' : KeyStyle} {previous : Option PathSegment}
  {segments segments' group group' : List PathSegment} {texts : List Text} {text : Text}

/-- The segments that a text between slashes is written for: those that it is classified as, or a key
that is refused there. -/
inductive WrittenFor (previous : Option PathSegment) (text : Text) : List PathSegment → Prop where
  | read {group : List PathSegment}
      (h : ∀ index, (index = 0 ↔ previous = none) →
        classifySegment .slash index previous text = .ok group) : WrittenFor previous text group
  | refused {value : Literal} (hvalue : value.WellFormed) (htext : text = value.render)
      (h : ∀ index, ∃ e, classifySegment .slash index previous text = .error e) :
      WrittenFor previous text [.key (.single value)]

theorem WrittenFor.unique (h : WrittenFor previous text group)
    (h' : WrittenFor previous text group') : group = group' := by
  obtain ⟨index, hindex⟩ : ∃ index : Nat, index = 0 ↔ previous = none := by
    cases previous with
    | none => exact ⟨0, index_first⟩
    | some previous => exact ⟨1, index_later 0 previous⟩
  cases h with
  | read h =>
      cases h' with
      | read h' => exact Except.ok.inj ((h index hindex).symm.trans (h' index hindex))
      | refused _ _ h' =>
          obtain ⟨e, herror⟩ := h' index
          exact nomatch (h index hindex).symm.trans herror
  | refused hvalue htext h =>
      cases h' with
      | read h' =>
          obtain ⟨e, herror⟩ := h index
          exact nomatch (h' index hindex).symm.trans herror
      | refused hvalue' htext' _ =>
          rw [Literal.render_injective hvalue hvalue' (htext.symm.trans htext')]

/-- A slash key is read as what it is, or refused for a parenthesis. -/
theorem writtenFor_slashKey {value : Literal} (h : (PathSegment.key (.single value)).Follows previous)
    (hslash : isSlashLiteral value = true) :
    WrittenFor previous value.render [.key (.single value)] := by
  by_cases hparen : ∃ text, value = .string text ∧ '(' ∈ text
  · obtain ⟨text, rfl, hmem⟩ := hparen
    exact .refused h.2 rfl fun index => ⟨_, classifySegment_paren hmem⟩
  · have hbare : '(' ∉ value.render :=
      not_mem_paren h.2 hslash fun text htext hmem => hparen ⟨text, htext, hmem⟩
    exact .read fun index _ => classifySegment_slashKey h hslash hbare

/-- The first text of a layout is written for the segments that the layout begins with. -/
theorem Layout.uncons (h : Layout style previous segments (text :: texts)) :
    ∃ group rest, segments = group ++ rest ∧ WrittenFor previous text group ∧
      Layout style group.getLast? rest texts := by
  cases h with
  | @control _ control _ hfollows htext =>
      exact ⟨[control], [], rfl, .read fun index _ => classifySegment_control htext, .nil⟩
  | @name _ named _ rest _ hfollows hname hrest =>
      exact ⟨[named], rest, rfl, .read fun index hindex => classifySegment_name hindex hfollows hname,
        hrest⟩
  | @keyed _ owner predicate name rest _ hfollows hname hkey hjoined hrest =>
      exact ⟨[owner, .key predicate], rest, rfl,
        .read fun index hindex => classifySegment_keyed hindex hfollows hname hkey.2, hrest⟩
  | @slashKey _ value rest _ hkey hjoined hrest =>
      obtain ⟨found, hfound, -, hslash⟩ := slash_of_not_joined hjoined
      cases hfound
      exact ⟨[.key (.single value)], rest, rfl, writtenFor_slashKey hkey hslash, hrest⟩

theorem Layout.eq_nil (h : Layout style previous segments []) : segments = [] := by
  cases h
  rfl

/-- Layouts of the same texts have the same segments. -/
theorem Layout.unique (h : Layout style previous segments texts)
    (h' : Layout style' previous segments' texts) : segments = segments' := by
  induction texts generalizing previous segments segments' with
  | nil => rw [h.eq_nil, h'.eq_nil]
  | cons text texts ih =>
      obtain ⟨group, rest, rfl, hgroup, hrest⟩ := h.uncons
      obtain ⟨group', rest', rfl, hgroup', hrest'⟩ := h'.uncons
      obtain rfl := hgroup.unique hgroup'
      rw [ih hrest hrest']

/-- Layouts that are written alike have the same texts. -/
theorem Layout.texts_eq (h : Layout style previous segments texts) {texts' : List Text}
    (h' : Layout style' previous segments' texts') (hslashed : slashed texts = slashed texts') :
    texts = texts' := by
  cases texts with
  | nil =>
      cases texts' with
      | nil => rfl
      | cons first' others' => cases hslashed
  | cons first others =>
      cases texts' with
      | nil => cases hslashed
      | cons first' others' =>
          have hescaped : Percent.escape .path first ++ slashed others =
              Percent.escape .path first' ++ slashed others' := (List.cons.inj hslashed).2
          have hbare := unescape_slashed first others
          rw [hescaped, unescape_slashed] at hbare
          have hsplit := splitSegments_closed fun text hmem => (h.text_spec text hmem).2
          have hsplit' := splitSegments_closed fun text hmem => (h'.text_spec text hmem).2
          rw [← Except.ok.inj hbare, hsplit'] at hsplit
          exact (Except.ok.inj hsplit).symm

theorem render_ne_nil (h : Chain none segments) (hnonempty : segments ≠ []) (style : KeyStyle) :
    ResourcePath.render ⟨segments⟩ style ≠ [] := by
  obtain ⟨texts, hlayout⟩ : ∃ texts, Layout style none segments texts := exists_layout h
  obtain ⟨first, others, rfl, hrender⟩ := hlayout.exists_render hnonempty
  rw [hrender]
  exact List.append_ne_nil_of_left_ne_nil
    (Percent.escape_ne_nil (hlayout.text_spec first List.mem_cons_self).1) _

/-- **One text, one path.** Chains that are written alike, each in a style of its own, are the
same. -/
theorem render_injective {path path' : ResourcePath} (h : Chain none path.segments)
    (h' : Chain none path'.segments) (hrender : path.render style = path'.render style') :
    path = path' := by
  obtain ⟨segments⟩ := path
  obtain ⟨segments'⟩ := path'
  by_cases hempty : segments = []
  · rw [hempty] at hrender ⊢
    by_cases hempty' : segments' = []
    · rw [hempty']
    · exact absurd hrender.symm (render_ne_nil h' hempty' style')
  by_cases hempty' : segments' = []
  · rw [hempty'] at hrender
    exact absurd hrender (render_ne_nil h hempty style)
  obtain ⟨texts, hlayout⟩ : ∃ texts, Layout style none segments texts := exists_layout h
  obtain ⟨texts', hlayout'⟩ : ∃ texts, Layout style' none segments' texts := exists_layout h'
  have hslashed : slashed texts = slashed texts' := by
    rw [← hlayout.cons_render hempty, ← hlayout'.cons_render hempty', hrender]
  obtain rfl := hlayout.texts_eq hlayout' hslashed
  rw [hlayout.unique hlayout']

end ResourcePath

end ODataRequest
