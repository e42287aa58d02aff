import ODataRequest.Proofs.Text.Spelling
import ODataRequest.Proofs.Url.Segments

/-! What parsers of URLs are relied on for. A hierarchical URL is written from its scheme on. Behind the
authority of a URL, the path is read segment by segment: a dot segment is resolved, with segments before
it if it stands for the place above, and every other segment is kept. The parser of the web's rules
satisfies both, for hosts of any kind. -/

namespace ODataRequest.Url

open Text Percent

/-- A URL that paths can be appended to. -/
structure IsBase (url : Url) : Prop where
  hierarchical : url.isHierarchical = true
  query : url.query = none
  fragment : url.fragment = none

theorem parseBase_eq_ok_iff [Parser] {text : Text} {url : Url} :
    parseBase text = .ok url ↔ parse? text = some url ∧ url.IsBase := by
  rw [parseBase]
  constructor
  · intro h
    split at h
    · cases h
    rename_i found hfound
    split at h
    · cases h
    rename_i hhierarchical
    split at h
    · cases h
    rename_i hquery
    split at h
    · cases h
    rename_i hfragment
    cases h
    rw [Bool.not_eq_true, Option.isSome_eq_false_iff, Option.isNone_iff_eq_none] at hquery hfragment
    exact ⟨hfound, by simpa using hhierarchical, hquery, hfragment⟩
  · rintro ⟨hfound, hhierarchical, hquery, hfragment⟩
    rw [hfound]
    dsimp only
    rw [hhierarchical, hquery, hfragment]
    rfl

/-! ### Schemes -/

def isSchemeCharacter (c : Char) : Bool :=
  c.isAlphanum || c = '+' || c = '-' || c = '.'

/-- A letter with letters, digits and a few signs behind it. -/
structure IsScheme (scheme : Text) : Prop where
  letter : scheme.head?.any Char.isAlpha = true
  characters : scheme.all isSchemeCharacter = true

/-- The text of a hierarchical URL begins with its scheme and a colon. -/
def BeginsWithScheme [Parser] : Prop :=
  ∀ text url, parse? text = some url → url.isHierarchical = true →
    ∃ scheme rest, IsScheme scheme ∧ url.render = scheme ++ ':' :: rest

/-! ### Paths -/

/-- A segment that stands for another one. -/
def IsDot (segment : Text) : Prop :=
  segment ∈ singleDots ∨ segment ∈ doubleDots

instance : DecidablePred IsDot := fun _ => inferInstanceAs (Decidable (_ ∨ _))

/-- What is left to read behind a dot segment: at the end of the path, it leaves an empty segment. -/
def behindDot : List Text → List Text
  | [] => [[]]
  | segment :: segments => segment :: segments

/-- Reading segments behind those of a path. How far a segment for the place above goes up is left open:
at the root it goes nowhere, and a parser may protect what stands for a drive. -/
inductive Resolves : (path segments result : List Text) → Prop where
  | done {path : List Text} : Resolves path [] path
  | keep {path segments result : List Text} {segment : Text} (hdot : ¬IsDot segment)
      (h : Resolves (path ++ [segment]) segments result) : Resolves path (segment :: segments) result
  | here {path segments result : List Text} {segment : Text} (hdot : segment ∈ singleDots)
      (h : Resolves path (behindDot segments) result) : Resolves path (segment :: segments) result
  | above {path before segments result : List Text} {segment : Text} (hdot : segment ∈ doubleDots)
      (hbefore : before <+: path) (h : Resolves before (behindDot segments) result) :
      Resolves path (segment :: segments) result

namespace Resolves

variable {path segments result : List Text} {segment : Text}

/-- Without dot segments, nothing is resolved. -/
theorem eq_append (h : Resolves path segments result) (hdots : ∀ segment ∈ segments, ¬IsDot segment) :
    result = path ++ segments := by
  induction h with
  | done => rw [List.append_nil]
  | keep _ _ ih => rw [ih fun segment hmem => hdots segment (List.mem_cons_of_mem _ hmem), ← List.append_cons]
  | here hdot _ _ => exact absurd (Or.inl hdot) (hdots _ List.mem_cons_self)
  | above hdot _ _ _ => exact absurd (Or.inr hdot) (hdots _ List.mem_cons_self)

theorem not_isDot_of_behindDot (hdots : ∀ segment ∈ segments, ¬IsDot segment) :
    ∀ segment ∈ behindDot segments, ¬IsDot segment := by
  cases segments with
  | nil => exact List.forall_mem_singleton.mpr (by decide)
  | cons first others => exact hdots

/-- What a segment leaves behind that has no dot segment after it. -/
theorem cases_of_cons (h : Resolves path (segment :: segments) result)
    (hdots : ∀ segment ∈ segments, ¬IsDot segment) :
    ¬IsDot segment ∧ result = path ++ segment :: segments ∨
      IsDot segment ∧ ∃ before, before <+: path ∧ result = before ++ behindDot segments := by
  cases h with
  | keep hdot h =>
      refine Or.inl ⟨hdot, ?_⟩
      rw [h.eq_append hdots, ← List.append_cons]
  | here hdot h =>
      exact Or.inr ⟨Or.inl hdot, path, List.prefix_rfl, h.eq_append (not_isDot_of_behindDot hdots)⟩
  | above hdot hbefore h =>
      exact Or.inr ⟨Or.inr hdot, _, hbefore, h.eq_append (not_isDot_of_behindDot hdots)⟩

/-- A dot segment never leaves as many segments as a name, or leaves an empty one instead. -/
theorem append_behindDot_ne {before : List Text} (hbefore : before <+: path) (hsegment : segment ≠ [])
    (segments : List Text) : before ++ behindDot segments ≠ path ++ segment :: segments := by
  intro heq
  have hlength := congrArg List.length heq
  have hle := hbefore.length_le
  cases segments with
  | nil =>
      obtain ⟨-, hlast⟩ := List.append_inj' heq rfl
      exact hsegment (List.cons.inj hlast).1.symm
  | cons first others =>
      simp only [behindDot, List.length_append, List.length_cons] at hlength
      omega

end Resolves

/-- A segment of path characters and complete escapes. -/
structure IsWritten (segment : Text) : Prop where
  spelled : Spelled isPathChar segment
  slashless : '/' ∉ segment

/-- The scheme and the authority of a URL that is no file. -/
structure Origin where
  scheme : Text
  authority : Text
  colonless : ':' ∉ scheme
  not_file : scheme ≠ "file".toList
  slashless : '/' ∉ authority
  nonempty : authority ≠ []

def Origin.render (origin : Origin) : Text :=
  origin.scheme ++ ':' :: '/' :: '/' :: origin.authority

/-- The URL has an origin and, behind it, the joined segments. -/
structure StandsAt (url : Url) (origin : Origin) (segments : List Text) : Prop where
  base : url.IsBase
  render : url.render = origin.render ++ joined segments
  slashless : ∀ segment ∈ segments, '/' ∉ segment

namespace Origin

variable {origin : Origin} {segments segments' : List Text}

theorem joined_injective (h : ∀ segment ∈ segments, '/' ∉ segment)
    (h' : ∀ segment ∈ segments', '/' ∉ segment)
    (heq : origin.render ++ joined segments = origin.render ++ joined segments') : segments = segments' := by
  rw [List.append_cancel_left_eq] at heq
  exact (Url.joined_injective List.not_mem_nil List.not_mem_nil h h' heq).2

end Origin

theorem StandsAt.render_iff {url : Url} {origin : Origin} {segments segments' : List Text}
    (h : url.StandsAt origin segments) (h' : ∀ segment ∈ segments', '/' ∉ segment) :
    url.render = origin.render ++ joined segments' ↔ segments = segments' := by
  rw [h.render]
  constructor
  · exact Origin.joined_injective h.slashless h'
  · rintro rfl
    rfl

end ODataRequest.Url
