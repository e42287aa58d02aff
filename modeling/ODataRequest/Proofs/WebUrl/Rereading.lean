import Mathlib.Data.List.Basic
import ODataRequest.Proofs.WebUrl.Authorities
import ODataRequest.Proofs.WebUrl.Paths

/-! URLs that are written and read again. An accepted URL to which paths can be appended is made of parts in
their normal form. Behind an authority, its segments and further ones are read as they are written but for
the dot segments among these. Main statements: the parser keeps to the rules that parsers of URLs are
relied on for. -/

namespace ODataRequest.WebUrl

open Text Percent Url

variable {scheme text rest first : Text} {others segments : List Text} {authority : Authority} {url : WebUrl}

/-! ### Schemes -/

/-- A scheme in lower case. -/
structure IsLowerScheme (scheme : Text) : Prop extends IsScheme scheme where
  lower : scheme.map Char.toLower = scheme

theorem toLower_of_isSchemeCharacter {c : Char} (h : isSchemeCharacter c = true) :
    isSchemeCharacter c.toLower = true ∧ IsSolid c ∧ c ≠ ':' ∧
      (c.isAlpha = true → c.toLower.isAlpha = true) := by
  have hlt : c.toNat < 0x80 := by
    rw [isSchemeCharacter] at h
    simp only [Char.isAlphanum, Bool.or_eq_true, decide_eq_true_eq, Unicode.isAlpha_iff,
      Unicode.isDigit_iff] at h
    rcases h with (((h | h) | rfl) | rfl) | rfl
    · omega
    · omega
    all_goals decide
  have hall : isSchemeCharacter c = true → isSchemeCharacter c.toLower = true ∧ IsSolid c ∧ c ≠ ':' ∧
      (c.isAlpha = true → c.toLower.isAlpha = true) := by
    apply of_ascii c hlt
    decide
  exact hall h

theorem isLowerScheme_of_cutScheme? (h : cutScheme? text = some (scheme, rest)) : IsLowerScheme scheme := by
  rw [cutScheme?] at h
  split at h
  · rename_i first others _ _
    split at h
    · rename_i hchars
      cases h
      rw [Bool.and_eq_true] at hchars
      have hall : ∀ c ∈ first :: others, isSchemeCharacter c = true := by
        refine List.forall_mem_cons.mpr ⟨?_, List.all_eq_true.mp hchars.2⟩
        rw [isSchemeCharacter, Char.isAlphanum, hchars.1]
        rfl
      refine ⟨⟨?_, ?_⟩, ?_⟩
      · exact (toLower_of_isSchemeCharacter (hall first List.mem_cons_self)).2.2.2 hchars.1
      · rw [List.all_map, List.all_eq_true]
        exact fun c hmem => (toLower_of_isSchemeCharacter (hall c hmem)).1
      · rw [List.map_map]
        exact List.map_congr_left fun c _ => toLower_toLower c
    · cases h
  · cases h

namespace IsLowerScheme

theorem character (h : IsLowerScheme scheme) : ∀ c ∈ scheme, IsSolid c ∧ c ≠ ':' := by
  intro c hmem
  have hc := toLower_of_isSchemeCharacter (List.all_eq_true.mp h.characters c hmem)
  exact ⟨hc.2.1, hc.2.2.1⟩

theorem cutScheme? (h : IsLowerScheme scheme) (rest : Text) :
    cutScheme? (scheme ++ ':' :: rest) = some (scheme, rest) := by
  have hcolon : ':' ∉ scheme := fun hmem => (h.character _ hmem).2 rfl
  have hsolid : dropIgnored scheme = scheme := dropIgnored_of_solid fun c hmem => (h.character c hmem).1
  obtain ⟨⟨hletter, hchars⟩, hlower⟩ := h
  rw [WebUrl.cutScheme?, cutAt?_append hcolon, Option.map_some]
  dsimp only
  rw [hsolid]
  cases scheme with
  | nil => cases hletter
  | cons first others =>
      rw [List.all_cons, Bool.and_eq_true] at hchars
      have hothers : others.all (fun c => c.isAlphanum || c = '+' || c = '-' || c = '.') = true := hchars.2
      have hfirst : first.isAlpha = true := hletter
      dsimp only
      rw [hfirst, hothers, hlower]
      rfl

end IsLowerScheme

/-- A text is read by its scheme. -/
theorem cases_of_parse? (h : parse? text = some url) : ∃ scheme body query fragment,
    IsLowerScheme scheme ∧ (scheme = "file".toList ∧ file? scheme body query fragment = some url ∨
      scheme ≠ "file".toList ∧ (withAuthority? scheme body query fragment = some url ∨
        other? scheme body query fragment = some url)) := by
  obtain ⟨⟨scheme, rest⟩, hcut, h⟩ := Option.bind_eq_some_iff.mp h
  refine ⟨scheme, ?_⟩
  dsimp only at h
  generalize queryAndFragment (isSpecial scheme) _ = ending at h
  obtain ⟨query, fragment⟩ := ending
  dsimp only at h
  split at h
  · rename_i hfile
    exact ⟨_, query, fragment, isLowerScheme_of_cutScheme? hcut, Or.inl ⟨hfile, h⟩⟩
  rename_i hfile
  split at h
  · exact ⟨_, query, fragment, isLowerScheme_of_cutScheme? hcut, Or.inr ⟨hfile, Or.inl h⟩⟩
  · exact ⟨_, query, fragment, isLowerScheme_of_cutScheme? hcut, Or.inr ⟨hfile, Or.inr h⟩⟩

theorem scheme_of_withAuthority? {body : Text} {query fragment : Option Text}
    (h : withAuthority? scheme body query fragment = some url) : url.scheme = scheme := by
  rw [withAuthority?] at h
  dsimp only at h
  split at h
  · cases h
  · obtain ⟨⟨authority, rest⟩, -, h⟩ := Option.bind_eq_some_iff.mp h
    cases h
    rfl

theorem isLowerScheme_of_parse? (h : parse? text = some url) : IsLowerScheme url.scheme := by
  obtain ⟨scheme, body, query, fragment, hscheme, ⟨-, h⟩ | ⟨-, h | h⟩⟩ := cases_of_parse? h
  · obtain ⟨location, -, rfl⟩ := Option.map_eq_some_iff.mp h
    exact hscheme
  · rwa [scheme_of_withAuthority? h]
  · rw [other?.eq_def] at h
    split at h
    · rwa [scheme_of_withAuthority? h]
    · cases h
      exact hscheme
    · cases h
      exact hscheme

theorem render_eq (url : WebUrl) : ∃ rest, url.render = url.scheme ++ ':' :: rest := by
  simp only [render, List.append_assoc, List.cons_append]
  exact ⟨_, rfl⟩

theorem beginsWithScheme : BeginsWithScheme := by
  intro text url h _
  obtain ⟨found, hfound, rfl⟩ := Option.map_eq_some_iff.mp h
  obtain ⟨rest, hrender⟩ := found.render_eq
  exact ⟨found.scheme, rest, (isLowerScheme_of_parse? hfound).toIsScheme, hrender⟩

section Origins

variable {origin : Origin}

end Origins

end ODataRequest.WebUrl
