import ODataRequest.Proofs.Path.RoundTrip

/-! The two styles of keys. In the slash style a text between slashes may also be a key, but no text that
is a name in the other style is a literal that may stand on its own. Main statement: whatever is read in
the style with parentheses is read as the same path in the slash style. -/

namespace ODataRequest

open Text

namespace ResourcePath

open PathSegment

variable {index : Nat} {previous : Option PathSegment} {text : Text}

/-- A text that is classified with keys in parentheses is classified alike in the slash style. -/
theorem classifySegment_slash (hindex : index = 0 ↔ previous = none) {group : List PathSegment}
    (h : classifySegment .parentheses index previous text = .ok group) :
    classifySegment .slash index previous text = .ok group := by
  rw [classifySegment] at h
  split at h
  · cases h
  rename_i hempty
  split at h
  · rename_i control hcontrol
    rw [classifySegment, if_neg hempty, hcontrol]
    exact h
  rename_i hcontrol
  split at h
  · rename_i name keyed hcut
    rw [classifySegment, if_neg hempty, hcontrol]
    dsimp only
    rw [hcut]
    exact h
  · obtain ⟨named, hnamed, heq⟩ := map_eq_ok h
    cases heq
    obtain ⟨hfollows, hname⟩ := follows_of_nameSegment hindex hnamed
    exact classifySegment_name hindex hfollows hname

/-- A text gives at least one segment. -/
theorem ne_nil_of_classifySegment {style : KeyStyle} (hindex : index = 0 ↔ previous = none)
    {group : List PathSegment} (h : classifySegment style index previous text = .ok group) :
    group ≠ [] := by
  cases group_of_classifySegment hindex h with
  | control _ => exact List.cons_ne_nil _ _
  | name _ _ => exact List.cons_ne_nil _ _
  | keyed _ _ _ => exact List.cons_ne_nil _ _
  | slashKey _ => exact List.cons_ne_nil _ _

/-- The texts of a path are classified alike, with the same indices. -/
theorem classify_slash {texts : List Text} {classified : List (Nat × PathSegment)}
    (hindex : index = 0 ↔ previous = none)
    (h : classify .parentheses index previous texts = .ok classified) :
    classify .slash index previous texts = .ok classified := by
  induction texts generalizing index previous classified with
  | nil => exact h
  | cons text texts ih =>
      obtain ⟨group, hgroup, h⟩ := bind_eq_ok.mp h
      obtain ⟨others, hothers, h⟩ := bind_eq_ok.mp h
      cases h
      have hlast : index + 1 = 0 ↔ group.getLast? = none :=
        iff_of_false (Nat.succ_ne_zero index)
          fun hnone => ne_nil_of_classifySegment hindex hgroup (List.getLast?_eq_none_iff.mp hnone)
      exact classify_cons (classifySegment_slash hindex hgroup) (ih hlast hothers)

/-- **The slash style extends the other one.** Every path that is read with keys in parentheses is read
in the slash style, as the same segments. -/
theorem parse_slash_of_parse_parentheses {path : ResourcePath} (h : parse text .parentheses = .ok path) :
    parse text .slash = .ok path := by
  rw [parse] at h ⊢
  split at h
  · rename_i hempty
    rw [if_pos hempty]
    exact h
  rename_i hempty
  rw [if_neg hempty]
  split at h
  · cases h
  · obtain ⟨texts, htexts, h⟩ := bind_eq_ok.mp h
    obtain ⟨classified, hclassified, h⟩ := bind_eq_ok.mp h
    rw [ofDecoded, htexts, ok_bind, classify_slash index_first hclassified, ok_bind]
    exact h

/-- A dotted name with letters beyond ASCII, after a key in parentheses and a name made of hexadecimal
digits. -/
theorem parse_slash_of_parse_parentheses_names :
    parse "People(1)/deadbeef/Größe.Maß".toList .parentheses =
        .ok ⟨[.entitySet "People".toList, .key (.single (.integer 1)), .navigation "deadbeef".toList,
          .boundOperation "Größe.Maß".toList]⟩ ∧
      parse "People(1)/deadbeef/Größe.Maß".toList .slash =
        .ok ⟨[.entitySet "People".toList, .key (.single (.integer 1)), .navigation "deadbeef".toList,
          .boundOperation "Größe.Maß".toList]⟩ := by
  have hparse : parse "People(1)/deadbeef/Größe.Maß".toList .parentheses =
      .ok ⟨[.entitySet "People".toList, .key (.single (.integer 1)), .navigation "deadbeef".toList,
        .boundOperation "Größe.Maß".toList]⟩ := by
    decide +kernel
  exact ⟨hparse, parse_slash_of_parse_parentheses hparse⟩

end ResourcePath

end ODataRequest
