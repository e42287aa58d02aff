import ODataRequest.Link.Conventional
import ODataRequest.Proofs.Url.Rules
import ODataRequest.Proofs.WebUrl.Rereading

/-! The convention that links follow. The escaped name of a property is a written segment behind those of the
edit link, so that the appended text is read as it stands unless it is that of a dot segment: the names of
these are not escaped, and they are resolved. -/

namespace ODataRequest

open Text Percent

variable {name : Text} {names : List Text}

/-! ### Names as segments -/

theorem isWritten_escape (name : Text) : Url.IsWritten (escape .path name) where
  spelled := path_within.spelled name
  slashless := not_mem_escape (by decide) name

theorem escape_path_inj {other : Text} (h : escape .path other = escape .path name) : other = name := by
  have hunescape := congrArg unescape h
  rw [unescape_escape, unescape_escape] at hunescape
  exact Except.ok.inj hunescape

namespace ConventionalLinks

variable {links : ConventionalLinks} {text : Text}

theorem slashless_append {path : List Text} (hpath : ∀ segment ∈ path, '/' ∉ segment) (names : List Text) :
    ∀ segment ∈ path ++ names.map (escape .path), '/' ∉ segment :=
  List.forall_mem_append.mpr ⟨hpath, List.forall_mem_map.mpr fun name _ => (isWritten_escape name).slashless⟩

/-- The URL that is read from an edit link with names appended, behind its origin and its segments. -/
structure ReadsAs [Url.Parser] (links : ConventionalLinks) (origin : Url.Origin) (path names : List Text)
    (url : Url) : Prop where
  found : Url.parse? (links.appendedText names) = some url
  resolved : ∃ result, Url.Resolves path (names.map (escape .path)) result ∧ url.StandsAt origin result

namespace ReadsAs

variable [Url.Parser] {origin : Url.Origin} {path others : List Text} {url : Url} {other : Text}

theorem base (h : links.ReadsAs origin path names url) : url.IsBase := by
  obtain ⟨-, result, -, hstands⟩ := h
  exact hstands.base

/-- The text of a link is that of other names only if the names are the same and the first is not that of a
dot segment. -/
theorem eq_of_render (h : links.ReadsAs origin path (other :: others) url)
    (hpath : ∀ segment ∈ path, '/' ∉ segment)
    (hothers : ∀ segment ∈ others.map (escape .path), ¬Url.IsDot segment) (hname : name ≠ [])
    (hrender : url.render = origin.render ++ Url.joined (path ++ (name :: others).map (escape .path))) :
    other = name ∧ ¬Url.IsDot (escape .path name) := by
  obtain ⟨-, result, hresolves, hstands⟩ := h
  have hresult := (hstands.render_iff (slashless_append hpath (name :: others))).mp hrender
  rw [List.map_cons] at hresolves hresult
  rcases hresolves.cases_of_cons hothers with ⟨hdot, hkept⟩ | ⟨hdot, before, hbefore, hleft⟩
  · have hsegments := List.append_cancel_left (hkept.symm.trans hresult)
    have hsame := escape_path_inj (List.cons.inj hsegments).1
    exact ⟨hsame, hsame ▸ hdot⟩
  · exact absurd (hleft.symm.trans hresult)
      (Url.Resolves.append_behindDot_ne hbefore (escape_ne_nil hname) _)

theorem render_iff (h : links.ReadsAs origin path (name :: others) url)
    (hpath : ∀ segment ∈ path, '/' ∉ segment)
    (hothers : ∀ segment ∈ others.map (escape .path), ¬Url.IsDot segment) (hname : name ≠ []) :
    url.render = origin.render ++ Url.joined (path ++ (name :: others).map (escape .path)) ↔
      ¬Url.IsDot (escape .path name) := by
  constructor
  · exact fun hrender => (h.eq_of_render hpath hothers hname hrender).2
  · intro hdot
    obtain ⟨-, result, hresolves, hstands⟩ := h
    rw [hstands.render, hresolves.eq_append]
    exact List.forall_mem_cons.mpr ⟨hdot, hothers⟩

end ReadsAs

end ConventionalLinks

end ODataRequest
