import Mathlib.Data.Bool.AllAny
import ODataRequest.Proofs.Url.Rules
import ODataRequest.Service.Root

/-! Service roots begin with a scheme. A scheme is made of letters, digits and a few signs, so that no
relative text begins with a service root unless a colon stands before its first slash, parenthesis and
question mark; then taking the root off leaves the text as it is. -/

namespace ODataRequest

open Text

namespace Url

/-- The characters that a scheme cannot hold, but a relative text can after its first name. -/
def nameEnds : Text :=
  "/(?".toList

theorem not_mem_scheme {scheme : Text} (h : IsScheme scheme) : ∀ mark ∈ nameEnds, mark ∉ scheme := by
  have hmarks : ∀ mark ∈ nameEnds, isSchemeCharacter mark = false := List.all_iff_forall_prop.mp (by decide)
  intro mark hmark hmem
  have hcharacter := List.all_eq_true.mp h.characters mark hmem
  rw [hmarks mark hmark] at hcharacter
  cases hcharacter

end Url

/-- Characters are dropped from the end up to the last one of another kind. -/
theorem Text.dropTrailing_append {c d : Char} (h : d ≠ c) (left right : Text) :
    ∃ rest, dropTrailing c (left ++ d :: right) = left ++ d :: rest := by
  have hreverse : (left ++ d :: right).reverse = right.reverse ++ d :: left.reverse := by
    rw [List.reverse_append, List.reverse_cons, List.append_assoc, List.singleton_append]
  rw [dropTrailing, hreverse, List.dropWhile_append]
  split
  · rw [List.dropWhile_cons_of_neg (by simpa using h), List.reverse_cons, List.reverse_reverse]
    exact ⟨[], rfl⟩
  · rw [List.reverse_append, List.reverse_cons, List.reverse_reverse, List.append_assoc]
    exact ⟨_, rfl⟩

namespace ServiceRoot

/-- A service root begins with a scheme and a colon. -/
theorem text_of_parse [Url.Parser] (hrule : Url.BeginsWithScheme) {text : Text} {root : ServiceRoot}
    (h : ServiceRoot.parse text = .ok root) :
    ∃ scheme rest, root.text = scheme ++ ':' :: rest ∧ ∀ mark ∈ Url.nameEnds, mark ∉ scheme := by
  rw [ServiceRoot.parse] at h
  split at h
  · rename_i url hurl
    cases h
    obtain ⟨hfound, hbase⟩ := Url.parseBase_eq_ok_iff.mp hurl
    obtain ⟨scheme, rest, hscheme, hrender⟩ := hrule text url hfound hbase.hierarchical
    obtain ⟨kept, hkept⟩ := dropTrailing_append (c := '/') (d := ':') (by decide) scheme rest
    exact ⟨scheme, kept, by rw [hrender, hkept], Url.not_mem_scheme hscheme⟩
  · cases h

/-- No service root begins a text whose first colon does not stand in its first name. -/
theorem after?_eq_none [Url.Parser] (hrule : Url.BeginsWithScheme) {text lead rest : Text}
    {root : ServiceRoot} (h : ServiceRoot.parse text = .ok root) (hlead : ':' ∉ lead)
    (hrest : ∀ c, rest.head? = some c → c ∈ Url.nameEnds) :
    after? root.text (lead ++ rest) = none := by
  obtain ⟨scheme, kept, hroot, hscheme⟩ := text_of_parse hrule h
  rw [Option.eq_none_iff_forall_not_mem]
  intro others hothers
  rw [Option.mem_def, after?_eq_some_iff, hroot, List.append_assoc, List.cons_append,
    List.append_eq_append_iff] at hothers
  rcases hothers with ⟨middle, rfl, hmiddle⟩ | ⟨middle, rfl, hmiddle⟩
  · cases middle with
    | nil =>
        rw [List.nil_append] at hmiddle
        exact absurd (hrest ':' (by rw [hmiddle]; rfl)) (by decide)
    | cons c middle =>
        have hc : c ∈ Url.nameEnds := hrest c (by rw [hmiddle]; rfl)
        exact hscheme c hc (by simp)
  · cases middle with
    | nil =>
        rw [List.nil_append] at hmiddle
        exact absurd (hrest ':' (by rw [← hmiddle]; rfl)) (by decide)
    | cons c middle =>
        obtain ⟨rfl, -⟩ := List.cons.inj hmiddle
        exact hlead (by simp)

end ServiceRoot

end ODataRequest
